import EightBit.Processor
import EightBit.Proofs.Flags
import EightBit.Proofs.Word
import Mathlib.Data.List.Basic
import Mathlib.Data.List.FinRange
import Mathlib.Logic.Function.Basic

/-!
What an operator who writes registers and flags can rely on.

Registers and flags overlap: a pair is two halves, and a flag is one bit of the register that holds
them all. Each is therefore described by the sites that it is kept in. Writing one takes every value
that fits its type, and changes nothing of what is kept in other sites.
-/

namespace EightBit

inductive ValueType where
  | u8
  | u16
  | bool

namespace ValueType

def Admits : ValueType → Value → Prop
  | .u8, v => v.toNat < 256
  | .u16, _ => True
  | .bool, v => v.toNat < 2

def convert : ValueType → Value → Value
  | .u8, v => .u8 (UInt8.ofNat v.toNat)
  | .u16, v => .u16 (UInt16.ofNat v.toNat)
  | .bool, v => .bool (v.toNat == 1)

end ValueType

variable {σ π μ : Type}

namespace Accessor

def type : Accessor σ → ValueType
  | .u8 _ _ => .u8
  | .u16 _ _ => .u16
  | .bool _ _ => .bool

/-- The register can be written, and writing takes each state and value to a state as described. -/
def Writes (Q : σ → Value → σ → Prop) : Accessor σ → Prop
  | .u8 _ (some put) => ∀ s v, Q s (.u8 v) (put s v)
  | .u16 _ (some put) => ∀ s v, Q s (.u16 v) (put s v)
  | .bool _ (some put) => ∀ s v, Q s (.bool v) (put s v)
  | _ => False

namespace Writes

variable {a : Accessor σ} {Q R : σ → Value → σ → Prop}

theorem mono (h : a.Writes Q) (hQR : ∀ s v t, Q s v t → R s v t) : a.Writes R := by
  match a, h with
  | .u8 _ (some put), h => exact fun s v => hQR _ _ _ (h s v)
  | .u16 _ (some put), h => exact fun s v => hQR _ _ _ (h s v)
  | .bool _ (some put), h => exact fun s v => hQR _ _ _ (h s v)

theorem put_of_admits (h : a.Writes Q) (s : σ) (name : String) {v : Value}
    (hv : a.type.Admits v) : ∃ t, a.put s name v = .ok t ∧ Q s (a.type.convert v) t := by
  match a, h with
  | .u8 _ (some put), h => exact ⟨_, if_pos hv, h s _⟩
  | .u16 _ (some put), h => exact ⟨_, rfl, h s _⟩
  | .bool _ (some put), h => exact ⟨_, if_pos hv, h s _⟩

theorem put_of_not_admits (h : a.Writes Q) (s : σ) (name : String) {v : Value}
    (hv : ¬ a.type.Admits v) : a.put s name v = .error (.outOfRange name v) := by
  match a, h with
  | .u8 _ (some put), h => exact if_neg hv
  | .u16 _ (some put), h => exact absurd trivial hv
  | .bool _ (some put), h => exact if_neg hv

end Writes

/-- A register that is kept in `sites`; what is held in a site is told by `held`. The register shows
nothing else, and it can be written. What is written shows again, normalized to a value that the
register can have; the other sites and the memory stay. -/
structure Lawful (held : σ → π → Value) (memory : σ → μ) (sites : List π)
    (normalized : Value → Value) (a : Accessor σ) : Prop where
  get_congr : ∀ s t, (∀ p ∈ sites, held s p = held t p) → a.get s = a.get t
  writes : a.Writes fun s v t =>
    a.get t = normalized v ∧ memory t = memory s ∧ ∀ p ∉ sites, held t p = held s p

namespace Lawful

variable {held : σ → π → Value} {memory : σ → μ}

/-- A register with a site of its own. -/
theorem of_site [DecidableEq π] {a : Accessor σ} {p : π} {normalized : Value → Value}
    (hget : ∀ s, held s p = a.get s)
    (hput : a.Writes fun s v t =>
      held t = Function.update (held s) p (normalized v) ∧ memory t = memory s) :
    a.Lawful held memory [p] normalized where
  get_congr s t h := by
    rw [← hget, ← hget]
    exact h p (List.mem_singleton_self p)
  writes := by
    refine hput.mono ?_
    rintro s v t ⟨hheld, hmemory⟩
    refine ⟨?_, hmemory, ?_⟩
    · rw [← hget, hheld, Function.update_self]
    · intro q hq
      have hne : q ≠ p := fun h => hq (List.mem_singleton.mpr h)
      rw [hheld, Function.update_of_ne hne]

/-- A pair of registers that are kept apart. -/
theorem pair {getHigh getLow : σ → UInt8} {putHigh putLow : σ → UInt8 → σ} {high low : List π}
    (hhigh : (Accessor.u8 getHigh (some putHigh)).Lawful held memory high id)
    (hlow : (Accessor.u8 getLow (some putLow)).Lawful held memory low id)
    (hapart : high.Disjoint low) :
    (Accessor.u16 (fun s => word (getHigh s) (getLow s))
      (some fun s w => putLow (putHigh s (Word.high w)) (Word.low w))).Lawful
        held memory (high ++ low) id where
  get_congr s t h := by
    have hgetHigh := hhigh.get_congr s t fun p hp => h p (List.mem_append_left low hp)
    have hgetLow := hlow.get_congr s t fun p hp => h p (List.mem_append_right high hp)
    injection hgetHigh with hgetHigh
    injection hgetLow with hgetLow
    exact congrArg Value.u16 (congrArg₂ word hgetHigh hgetLow)
  writes := by
    intro s w
    obtain ⟨hgetHigh, hmemoryHigh, hkeepHigh⟩ := hhigh.writes s (Word.high w)
    obtain ⟨hgetLow, hmemoryLow, hkeepLow⟩ := hlow.writes (putHigh s (Word.high w)) (Word.low w)
    -- The second write must not disturb the half that was written first.
    have hstill := hhigh.get_congr _ _ fun p hp => hkeepLow p (hapart hp)
    have hboth := hstill.trans hgetHigh
    injection hboth with hboth
    injection hgetLow with hgetLow
    refine ⟨?_, hmemoryLow.trans hmemoryHigh, ?_⟩
    · calc Value.u16 (word (getHigh _) (getLow _))
        _ = .u16 (word (Word.high w) (Word.low w)) :=
          congrArg Value.u16 (congrArg₂ word hboth hgetLow)
        _ = .u16 w := congrArg Value.u16 (Word.word_high_low w)
    · intro p hp
      rw [List.mem_append, not_or] at hp
      exact (hkeepLow p hp.2).trans (hkeepHigh p hp.1)

end Lawful

/-- A register each of whose bits has a site. -/
structure Bitwise (held : σ → π → Value) (memory : σ → μ) (site : Fin 8 → π) (get : σ → UInt8)
    (put : σ → UInt8 → σ) : Prop where
  held_site : ∀ s k, held s (site k) = .bool (Byte.bit (get s) k)
  get_put : ∀ s v, get (put s v) = v
  held_put : ∀ s v p, (∀ k, site k ≠ p) → held (put s v) p = held s p
  memory_put : ∀ s v, memory (put s v) = memory s

namespace Bitwise

variable {held : σ → π → Value} {memory : σ → μ} {site : Fin 8 → π} {get : σ → UInt8}
  {put : σ → UInt8 → σ}

/-- The register itself is kept in all of them. -/
theorem whole (h : Bitwise held memory site get put) {normal : UInt8 → UInt8}
    {normalized : Value → Value} (hnormalized : ∀ v, normalized (.u8 v) = .u8 (normal v)) :
    (Accessor.u8 get (some fun s v => put s (normal v))).Lawful held memory
      ((List.finRange 8).map site) normalized where
  get_congr s t hsites := by
    have hbits : ∀ k < 8, Byte.bit (get s) k = Byte.bit (get t) k := by
      intro k hk
      have hsite := hsites _ (List.mem_map_of_mem (List.mem_finRange ⟨k, hk⟩))
      rw [h.held_site, h.held_site] at hsite
      injection hsite
    exact congrArg Value.u8 (Byte.eq_of_bits hbits)
  writes := by
    intro s v
    refine ⟨?_, h.memory_put s _, fun p hp => h.held_put s _ p ?_⟩
    · rw [hnormalized]
      exact congrArg Value.u8 (h.get_put s _)
    · rintro k rfl
      exact hp (List.mem_map_of_mem (List.mem_finRange k))

/-- A flag is kept in one of them. -/
theorem flag (h : Bitwise held memory site get put) {mask : UInt8} {k : Fin 8}
    (hmask : mask.toNat = 2 ^ k.val) :
    (Accessor.bool (fun s => get s &&& mask == mask)
      (some fun s on => put s (FlagLayout.put (get s) mask on))).Lawful held memory
        [site k] id where
  get_congr s t hsites := by
    have hsite := hsites _ (List.mem_singleton_self (site k))
    rw [h.held_site, h.held_site, ← Byte.and_mask_eq_mask _ hmask,
      ← Byte.and_mask_eq_mask _ hmask] at hsite
    exact hsite
  writes := by
    intro s on
    have hbit := FlagLayout.bit_put_mask (get s) hmask on
    have hshown : (get (put s (FlagLayout.put (get s) mask on)) &&& mask == mask) = on := by
      rw [Byte.and_mask_eq_mask _ hmask, h.get_put, hbit, if_pos rfl]
    refine ⟨congrArg Value.bool hshown, h.memory_put s _, fun p hp => ?_⟩
    by_cases hsite : ∃ j, site j = p
    · obtain ⟨j, rfl⟩ := hsite
      have hne : j ≠ k := fun hj => hp (List.mem_singleton.mpr (congrArg site hj))
      rw [h.held_site, h.held_site, h.get_put, hbit, if_neg hne]
    · exact h.held_put s _ p (not_exists.mp hsite)

end Bitwise

end Accessor

namespace RegisterTable

variable {t : RegisterTable σ} {missing : String → EditError}

/-- The state after a write, which is the old one when the write fails. -/
def edited (t : RegisterTable σ) (missing : String → EditError) (s : σ) (name : String)
    (value : Value) : σ :=
  (t.put missing s name value).toOption.getD s

/-- A name that stands once in the table finds its register. -/
theorem lookup_of_mem (hnames : (t.map Prod.fst).Nodup) {e : String × Accessor σ} (he : e ∈ t) :
    t.lookup e.1 = some e.2 := by
  obtain ⟨before, behind, rfl⟩ := List.append_of_mem he
  refine List.lookup_eq_some_iff.mpr ⟨before, behind, rfl, ?_⟩
  intro other hother
  rw [List.map_append, List.nodup_append] at hnames
  have hne : other.1 ≠ e.1 :=
    hnames.2.2 _ (List.mem_map_of_mem hother) _ (List.mem_map_of_mem List.mem_cons_self)
  exact bne_iff_ne.mpr hne.symm

theorem value?_of_mem (hnames : (t.map Prod.fst).Nodup) {e : String × Accessor σ} (he : e ∈ t)
    (s : σ) : t.value? s e.1 = some (e.2.get s) := by
  rw [value?, lookup_of_mem hnames he, Option.map_some]

theorem put_of_mem (hnames : (t.map Prod.fst).Nodup) {e : String × Accessor σ} (he : e ∈ t)
    (s : σ) (v : Value) : t.put missing s e.1 v = e.2.put s e.1 v := by
  rw [put, lookup_of_mem hnames he]

theorem put_of_forall_ne {name : String} (h : ∀ e ∈ t, e.1 ≠ name) (s : σ) (v : Value) :
    t.put missing s name v = .error (missing name) := by
  have hnone : t.lookup name = none :=
    List.lookup_eq_none_iff.mpr fun e he => bne_iff_ne.mpr (h e he).symm
  rw [put, hnone]

theorem edited_of_ok {s u : σ} {name : String} {v : Value} (h : t.put missing s name v = .ok u) :
    t.edited missing s name v = u := by
  rw [edited, h]
  rfl

theorem edited_of_error {s : σ} {name : String} {v : Value} {error : EditError}
    (h : t.put missing s name v = .error error) : t.edited missing s name v = s := by
  rw [edited, h]
  rfl

/-- Whether it is taken or refused, a value for a lawful register reaches only its sites. -/
theorem edited_keeps (hnames : (t.map Prod.fst).Nodup) {e : String × Accessor σ} (he : e ∈ t)
    {held : σ → π → Value} {memory : σ → μ} {sites : List π} {normalized : Value → Value}
    (h : e.2.Lawful held memory sites normalized) (s : σ) (v : Value) :
    memory (t.edited missing s e.1 v) = memory s ∧
      ∀ p ∉ sites, held (t.edited missing s e.1 v) p = held s p := by
  have hput : t.put missing s e.1 v = e.2.put s e.1 v := put_of_mem hnames he s v
  by_cases hv : e.2.type.Admits v
  · obtain ⟨u, hu, -, hkeep⟩ := h.writes.put_of_admits s e.1 hv
    rw [edited_of_ok (hput.trans hu)]
    exact hkeep
  · rw [edited_of_error (hput.trans (h.writes.put_of_not_admits s e.1 hv))]
    exact ⟨rfl, fun _ _ => rfl⟩

end RegisterTable

section Edits

open RegisterTable

/-- What holds of writing the registers and flags of a processor by their names. Each is kept in
`sites`, and what is written is normalized to a value that the register or flag can have. -/
structure LawfulEdits (table : RegisterClass → RegisterTable σ)
    (sites : RegisterClass → String → List π) (normalized : RegisterClass → String → Value → Value)
    (memory : σ → μ) : Prop where
  /-- A value is taken just if it fits the type. -/
  accepted_iff : ∀ k, ∀ e ∈ table k, ∀ s v,
    (∃ t, (table k).put k.missing s e.1 v = .ok t) ↔ e.2.type.Admits v
  /-- What was taken shows as a value of the type. -/
  reads_back : ∀ k, ∀ e ∈ table k, ∀ s v, e.2.type.Admits v →
    (table k).value? ((table k).edited k.missing s e.1 v) e.1 =
      some (normalized k e.1 (e.2.type.convert v))
  /-- What is kept in other sites shows as before. -/
  elsewhere : ∀ k, ∀ e ∈ table k, ∀ k', ∀ e' ∈ table k', ∀ s v,
    (sites k e.1).Disjoint (sites k' e'.1) →
      (table k').value? ((table k).edited k.missing s e.1 v) e'.1 = (table k').value? s e'.1
  /-- No write reaches the memory. -/
  spared : ∀ k s name v, memory ((table k).edited k.missing s name v) = memory s
  /-- A value that does not fit is refused under the name that it was meant for. -/
  outOfRange : ∀ k, ∀ e ∈ table k, ∀ s v, ¬ e.2.type.Admits v →
    (table k).put k.missing s e.1 v = .error (.outOfRange e.1 v)
  /-- A name that is not in the table is refused. -/
  unknown : ∀ k s name v, (∀ e ∈ table k, e.1 ≠ name) →
    (table k).put k.missing s name v = .error (k.missing name)
  /-- A write that is refused changes nothing. -/
  refused : ∀ k s name v error, (table k).put k.missing s name v = .error error →
    (table k).edited k.missing s name v = s

/-- Registers and flags that are each lawful, under names of their own, are so together. -/
theorem LawfulEdits.of_lawful {table : RegisterClass → RegisterTable σ}
    {sites : RegisterClass → String → List π} {normalized : RegisterClass → String → Value → Value}
    {held : σ → π → Value} {memory : σ → μ} (hnames : ∀ k, ((table k).map Prod.fst).Nodup)
    (hlawful : ∀ k, ∀ e ∈ table k, e.2.Lawful held memory (sites k e.1) (normalized k e.1)) :
    LawfulEdits table sites normalized memory where
  accepted_iff k e he s v := by
    rw [put_of_mem (hnames k) he]
    constructor
    · rintro ⟨t, ht⟩
      by_contra hv
      rw [(hlawful k e he).writes.put_of_not_admits s e.1 hv] at ht
      cases ht
    · intro hv
      obtain ⟨t, ht, -⟩ := (hlawful k e he).writes.put_of_admits s e.1 hv
      exact ⟨t, ht⟩
  reads_back k e he s v hv := by
    obtain ⟨t, ht, hget, -⟩ := (hlawful k e he).writes.put_of_admits s e.1 hv
    have hput : (table k).put k.missing s e.1 v = .ok t := (put_of_mem (hnames k) he s v).trans ht
    rw [edited_of_ok hput, value?_of_mem (hnames k) he, hget]
  elsewhere k e he k' e' he' s v hapart := by
    have hkeep : ∀ p ∉ sites k e.1, held ((table k).edited k.missing s e.1 v) p = held s p :=
      (edited_keeps (hnames k) he (hlawful k e he) s v).2
    rw [value?_of_mem (hnames k') he', value?_of_mem (hnames k') he']
    refine congrArg some ((hlawful k' e' he').get_congr _ _ fun p hp => hkeep p ?_)
    exact fun h => hapart h hp
  spared k s name v := by
    by_cases hname : ∃ e ∈ table k, e.1 = name
    · obtain ⟨e, he, rfl⟩ := hname
      exact (edited_keeps (hnames k) he (hlawful k e he) s v).1
    · have hunknown : ∀ e ∈ table k, e.1 ≠ name := fun e he h => hname ⟨e, he, h⟩
      rw [edited_of_error (put_of_forall_ne hunknown s v)]
  outOfRange k e he s v hv := by
    rw [put_of_mem (hnames k) he]
    exact (hlawful k e he).writes.put_of_not_admits s e.1 hv
  unknown k s name v h := put_of_forall_ne h s v
  refused k s name v error h := edited_of_error h

end Edits

namespace Mos6502

inductive Site where
  | pc
  | a
  | x
  | y
  | sp
  /-- A bit of the status register. -/
  | sr (k : Fin 8)
  deriving DecidableEq

def held (s : Mos6502) : Site → Value
  | .pc => .u16 s.pc
  | .a => .u8 s.a
  | .x => .u8 s.x
  | .y => .u8 s.y
  | .sp => .u8 s.sp
  | .sr k => .bool (Byte.bit s.sr k)

/-- The sites of the register or flag of a name: a flag is a bit of the status register. -/
def sites : RegisterClass → String → List Site
  | .register, "pc" => [.pc]
  | .register, "a" => [.a]
  | .register, "x" => [.x]
  | .register, "y" => [.y]
  | .register, "sp" => [.sp]
  | .register, "sr" => (List.finRange 8).map .sr
  | .flag, "n" => [.sr 7]
  | .flag, "v" => [.sr 6]
  | .flag, "b" => [.sr 4]
  | .flag, "d" => [.sr 3]
  | .flag, "i" => [.sr 2]
  | .flag, "z" => [.sr 1]
  | .flag, "c" => [.sr 0]
  | _, _ => []

/-- The status register always has its unused bit. -/
def normalized : RegisterClass → String → Value → Value
  | .register, "sr" => fun
    | .u8 v => .u8 (v ||| flagU)
    | v => v
  | _, _ => id

def memory (s : Mos6502) : Memory × Latches := (s.mem, s.latches)

theorem bitwise_sr :
    Accessor.Bitwise held memory Site.sr Mos6502.sr (fun s v => { s with sr := v }) where
  held_site _ _ := rfl
  get_put _ _ := rfl
  held_put s v p hp := by
    cases p with
    | sr k => exact absurd rfl (hp k)
    | _ => rfl
  memory_put _ _ := rfl

theorem lawful_table (k : RegisterClass) :
    ∀ e ∈ table k, e.2.Lawful held memory (sites k e.1) (normalized k e.1) := by
  cases k with
  | register =>
    simp only [table, registers, List.forall_mem_cons]
    refine ⟨?pc, ?a, ?x, ?y, ?sp, bitwise_sr.whole fun _ => rfl, List.forall_mem_nil _⟩ <;>
      exact .of_site (fun _ => rfl) fun _ _ => ⟨funext fun p => by cases p <;> rfl, rfl⟩
  | flag =>
    simp only [table, flags, flagEntry, List.forall_mem_cons]
    exact ⟨bitwise_sr.flag rfl, bitwise_sr.flag rfl, bitwise_sr.flag rfl, bitwise_sr.flag rfl,
      bitwise_sr.flag rfl, bitwise_sr.flag rfl, bitwise_sr.flag rfl, List.forall_mem_nil _⟩

end Mos6502

namespace Z80

inductive Site where
  | pc
  | a
  /-- A bit of the flag register. -/
  | f (k : Fin 8)
  | b
  | c
  | d
  | e
  | h
  | l
  | ix
  | iy
  | sp
  | i
  | r
  | afAlt
  | bcAlt
  | deAlt
  | hlAlt
  | im
  | iff1
  | iff2
  deriving DecidableEq

def held (s : Z80) : Site → Value
  | .pc => .u16 s.pc
  | .a => .u8 s.a
  | .f k => .bool (Byte.bit s.f k)
  | .b => .u8 s.b
  | .c => .u8 s.c
  | .d => .u8 s.d
  | .e => .u8 s.e
  | .h => .u8 s.h
  | .l => .u8 s.l
  | .ix => .u16 s.ix
  | .iy => .u16 s.iy
  | .sp => .u16 s.sp
  | .i => .u8 s.i
  | .r => .u8 s.r
  | .afAlt => .u16 s.afAlt
  | .bcAlt => .u16 s.bcAlt
  | .deAlt => .u16 s.deAlt
  | .hlAlt => .u16 s.hlAlt
  | .im => .u8 s.im
  | .iff1 => .bool s.iff1
  | .iff2 => .bool s.iff2

/-- The sites of the register or flag of a name: a pair has those of its halves, and a flag is a bit
of the flag register, which is half of a pair itself. -/
def sites : RegisterClass → String → List Site
  | .register, "pc" => [.pc]
  | .register, "a" => [.a]
  | .register, "f" => (List.finRange 8).map .f
  | .register, "b" => [.b]
  | .register, "c" => [.c]
  | .register, "d" => [.d]
  | .register, "e" => [.e]
  | .register, "h" => [.h]
  | .register, "l" => [.l]
  | .register, "af" => [.a] ++ (List.finRange 8).map .f
  | .register, "bc" => [.b] ++ [.c]
  | .register, "de" => [.d] ++ [.e]
  | .register, "hl" => [.h] ++ [.l]
  | .register, "ix" => [.ix]
  | .register, "iy" => [.iy]
  | .register, "sp" => [.sp]
  | .register, "i" => [.i]
  | .register, "r" => [.r]
  | .register, "af'" => [.afAlt]
  | .register, "bc'" => [.bcAlt]
  | .register, "de'" => [.deAlt]
  | .register, "hl'" => [.hlAlt]
  | .register, "im" => [.im]
  | .flag, "s" => [.f 7]
  | .flag, "z" => [.f 6]
  | .flag, "5" => [.f 5]
  | .flag, "h" => [.f 4]
  | .flag, "3" => [.f 3]
  | .flag, "v" => [.f 2]
  | .flag, "n" => [.f 1]
  | .flag, "c" => [.f 0]
  | .flag, "iff1" => [.iff1]
  | .flag, "iff2" => [.iff2]
  | _, _ => []

/-- There are only the interrupt modes 0 to 2. -/
def normalized : RegisterClass → String → Value → Value
  | .register, "im" => fun
    | .u8 v => .u8 (min v 2)
    | v => v
  | _, _ => id

def memory (s : Z80) : Memory × Memory × Latches := (s.mem, s.ports, s.latches)

theorem bitwise_f : Accessor.Bitwise held memory Site.f Z80.f (fun s v => { s with f := v }) where
  held_site _ _ := rfl
  get_put _ _ := rfl
  held_put s v p hp := by
    cases p with
    | f k => exact absurd rfl (hp k)
    | _ => rfl
  memory_put _ _ := rfl

/-- The halves of pairs, apart from the flags, have a site each. -/
theorem lawful_halves :
    (Accessor.u8 Z80.a (some fun s v => { s with a := v })).Lawful held memory [.a] id ∧
    (Accessor.u8 Z80.b (some fun s v => { s with b := v })).Lawful held memory [.b] id ∧
    (Accessor.u8 Z80.c (some fun s v => { s with c := v })).Lawful held memory [.c] id ∧
    (Accessor.u8 Z80.d (some fun s v => { s with d := v })).Lawful held memory [.d] id ∧
    (Accessor.u8 Z80.e (some fun s v => { s with e := v })).Lawful held memory [.e] id ∧
    (Accessor.u8 Z80.h (some fun s v => { s with h := v })).Lawful held memory [.h] id ∧
    (Accessor.u8 Z80.l (some fun s v => { s with l := v })).Lawful held memory [.l] id := by
  refine ⟨?a, ?b, ?c, ?d, ?e, ?h, ?l⟩ <;>
    exact .of_site (fun _ => rfl) fun _ _ => ⟨funext fun p => by cases p <;> rfl, rfl⟩

theorem lawful_table (k : RegisterClass) :
    ∀ e ∈ table k, e.2.Lawful held memory (sites k e.1) (normalized k e.1) := by
  cases k with
  | register =>
    obtain ⟨ha, hb, hc, hd, he, hh, hl⟩ := lawful_halves
    have hf : (Accessor.u8 Z80.f (some fun s v => { s with f := v })).Lawful held memory
        ((List.finRange 8).map .f) id := bitwise_f.whole fun _ => rfl
    simp only [table, registers, List.forall_mem_cons]
    refine ⟨?pc, ha, hf, hb, hc, hd, he, hh, hl, ha.pair hf (by simp),
      hb.pair hc (by simp), hd.pair he (by simp), hh.pair hl (by simp), ?ix, ?iy, ?sp, ?i, ?r,
      ?afAlt, ?bcAlt, ?deAlt, ?hlAlt, ?im, List.forall_mem_nil _⟩ <;>
      exact .of_site (fun _ => rfl) fun _ _ => ⟨funext fun p => by cases p <;> rfl, rfl⟩
  | flag =>
    simp only [table, flags, flagEntry, List.forall_mem_cons]
    refine ⟨bitwise_f.flag rfl, bitwise_f.flag rfl, bitwise_f.flag rfl, bitwise_f.flag rfl,
      bitwise_f.flag rfl, bitwise_f.flag rfl, bitwise_f.flag rfl, bitwise_f.flag rfl, ?_, ?_,
      List.forall_mem_nil _⟩ <;>
      exact .of_site (fun _ => rfl) fun _ _ => ⟨funext fun p => by cases p <;> rfl, rfl⟩

end Z80

/-- The registers and flags of both processors can be edited lawfully. Apart from the unused bit of
the 6502's status register and the modes that a Z80 does not have, each shows what was written to
it, and no write is seen in one that is kept in other sites. -/
theorem edits_lawful :
    LawfulEdits Mos6502.table Mos6502.sites Mos6502.normalized Mos6502.memory ∧
      LawfulEdits Z80.table Z80.sites Z80.normalized Z80.memory := by
  have hnames6502 : ∀ k, ((Mos6502.table k).map Prod.fst).Nodup := by
    intro k
    cases k <;> decide
  have hnamesZ80 : ∀ k, ((Z80.table k).map Prod.fst).Nodup := by
    intro k
    cases k <;> decide
  exact ⟨.of_lawful hnames6502 Mos6502.lawful_table, .of_lawful hnamesZ80 Z80.lawful_table⟩

end EightBit
