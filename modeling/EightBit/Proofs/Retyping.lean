import EightBit.Proofs.Editing
import EightBit.Proofs.Evaluation
import EightBit.Proofs.Printing
import EightBit.Proofs.Processor
import EightBit.Proofs.Turns

/-!
What an operator reads can be typed again.

A register is shown as its value in one or more forms. Each word of it is read as that value, and
written back to the register it leaves every register and flag as it is.
-/

namespace EightBit

namespace Accessor

variable {σ : Type} {a : Accessor σ} {Q : σ → σ → Prop}

theorem admits_get (a : Accessor σ) (s : σ) : a.type.Admits (a.get s) := by
  cases a with
  | u8 get _ => exact (get s).toNat_lt
  | u16 get _ => exact trivial
  | bool get _ => exact (get s).toNat_lt

theorem convert_get (a : Accessor σ) (s : σ) : a.type.convert (a.get s) = a.get s := by
  cases a with
  | u8 get _ => exact congrArg Value.u8 UInt8.ofNat_toNat
  | u16 get _ => exact congrArg Value.u16 UInt16.ofNat_toNat
  | bool get _ =>
    refine congrArg Value.bool ?_
    change ((get s).toNat == 1) = get s
    cases get s <;> rfl

/-- A register that is given the value that it has. -/
theorem Writes.put_get (h : a.Writes fun s v t => v = a.get s → Q s t) (s : σ) (name : String) :
    ∃ t, a.put s name (a.get s) = .ok t ∧ Q s t := by
  obtain ⟨t, ht, hkept⟩ := h.put_of_admits s name (a.admits_get s)
  exact ⟨t, ht, hkept (a.convert_get s)⟩

end Accessor

namespace RegisterTable

variable {σ : Type} {table : RegisterTable σ} {Q : σ → σ → Prop} {s : σ} {name : String}
  {v : Value}

theorem mem_of_value? (h : table.value? s name = some v) :
    ∃ e ∈ table, e.1 = name ∧ table.lookup name = some e.2 ∧ e.2.get s = v := by
  obtain ⟨a, ha, rfl⟩ := Option.map_eq_some_iff.mp h
  obtain ⟨before, behind, rfl, -⟩ := List.lookup_eq_some_iff.mp ha
  exact ⟨(name, a), by simp, rfl, ha, rfl⟩

theorem put_value? (hQ : ∀ e ∈ table, e.2.Writes fun s v t => v = e.2.get s → Q s t)
    (missing : String → EditError) (h : table.value? s name = some v) :
    ∃ t, table.put missing s name v = .ok t ∧ Q s t := by
  obtain ⟨e, he, -, hlookup, rfl⟩ := mem_of_value? h
  obtain ⟨t, ht, hkept⟩ := (hQ e he).put_get s name
  refine ⟨t, ?_, hkept⟩
  rw [put, hlookup]
  exact ht

end RegisterTable

/-- Setting bits that are set changes nothing. -/
theorem Byte.or_eq_left {v w : UInt8} (h : v &&& w = w) : v ||| w = v := by
  apply eq_of_bits
  intro k _
  have hk := congrArg (bit · k) h
  simp only [bit_and] at hk
  rw [bit_or, ← hk]
  cases bit v k <;> rfl

namespace Mos6502

theorem registers_write_back : ∀ e ∈ registers, e.2.Writes fun s v t =>
    v = e.2.get s → s.flag flagU = true → t = s := by
  simp only [registers, List.forall_mem_cons]
  refine ⟨?pc, ?a, ?x, ?y, ?sp, ?sr, List.forall_mem_nil _⟩
  case sr =>
    rintro s v hv hflag
    obtain rfl : v = s.sr := Value.u8.inj hv
    have hset : s.sr ||| flagU = s.sr := Byte.or_eq_left (eq_of_beq hflag)
    change { s with sr := s.sr ||| flagU } = s
    rw [hset]
  all_goals
    rintro s v hv -
    injection hv with hv
    rw [hv]

end Mos6502

namespace Z80

/-- Only the program counter does more than hold its value: a write to it ends a halt. -/
theorem registers_write_back : ∀ e ∈ registers, e.2.Writes fun s v t =>
    v = e.2.get s → s.im ≤ 2 → t = s ∨ t = { s with halted := false } := by
  simp only [registers, List.forall_mem_cons]
  refine ⟨?pc, ?_, ?_, ?_, ?_, ?_, ?_, ?_, ?_, ?af, ?bc, ?de, ?hl, ?_, ?_, ?_, ?_, ?_, ?_, ?_, ?_,
    ?_, ?im, List.forall_mem_nil _⟩
  case pc =>
    rintro s v hv -
    obtain rfl : v = s.pc := Value.u16.inj hv
    exact .inr rfl
  case im =>
    rintro s v hv him
    obtain rfl : v = s.im := Value.u8.inj hv
    left
    have hmode : min s.im 2 = s.im := if_pos him
    change { s with im := min s.im 2 } = s
    rw [hmode]
  case af | bc | de | hl =>
    rintro s v hv -
    obtain rfl : v = word _ _ := Value.u16.inj hv
    left
    simp only [setAF, setBC, setDE, setHL, Word.high_word, Word.low_word]
  all_goals
    rintro s v hv -
    left
    injection hv with hv
    rw [hv]

end Z80

namespace Core

/-- The unused status bit of a 6502 is set, and the interrupt mode of a Z80 is one that there is. -/
def Proper : Core → Prop
  | mos6502 s => s.flag Mos6502.flagU = true
  | z80 s => s.im ≤ 2
  | counter _ => True

theorem value?_of_mos6502 {s : Mos6502} {name : String} {v : Value}
    (h : (mos6502 s).value .register name = .ok v) :
    Mos6502.registers.value? s name = some v := by
  simp only [value, Mos6502.table] at h
  split at h
  · next hvalue => exact hvalue.trans (congrArg some (Except.ok.inj h))
  · contradiction

theorem value?_of_z80 {s : Z80} {name : String} {v : Value}
    (h : (z80 s).value .register name = .ok v) : Z80.registers.value? s name = some v := by
  simp only [value, Z80.table] at h
  split at h
  · next hvalue => exact hvalue.trans (congrArg some (Except.ok.inj h))
  · contradiction

theorem put_value {c : Core} {name : String} {v : Value} (hproper : c.Proper)
    (h : c.value .register name = .ok v) :
    ∃ c', c.put .register name v = .ok c' ∧ c'.latches = c.latches ∧
      ∀ k, c'.values k = c.values k := by
  cases c with
  | mos6502 s =>
    obtain ⟨t, ht, hsame⟩ := RegisterTable.put_value? Mos6502.registers_write_back
      RegisterClass.register.missing (value?_of_mos6502 h)
    obtain rfl := hsame hproper
    exact ⟨mos6502 t, by simp only [put, Mos6502.table, ht, Except.map], rfl, fun _ => rfl⟩
  | z80 s =>
    obtain ⟨t, ht, hsame⟩ := RegisterTable.put_value? Z80.registers_write_back
      RegisterClass.register.missing (value?_of_z80 h)
    refine ⟨z80 t, by simp only [put, Z80.table, ht, Except.map], ?_, ?_⟩
    · rcases hsame hproper with rfl | rfl <;> rfl
    · rintro (_ | _) <;> rcases hsame hproper with rfl | rfl <;> rfl
  | counter s => contradiction

end Core

/-- The registers or flags that a processor of a system shows, if there is such a processor. -/
def System.values (sys : System) (k : RegisterClass) (i : Nat) :
    Option (Except EditError (List (String × Value))) :=
  (sys.core? i).map (Core.values k)

/-- Replacing a processor by one that shows the same, and leaves the shared registers alone, changes
nothing that is shown. -/
theorem System.values_update {sys : System} {i : Nat} {c c' : Core} (hc : sys.core? i = some c)
    (hlatches : c'.latches = c.latches) (hsame : ∀ k, c'.values k = c.values k)
    (k : RegisterClass) (j : Nat) : (sys.update i fun _ => c').values k j = sys.values k j := by
  obtain ⟨p, hp, rfl⟩ := Option.map_eq_some_iff.mp hc
  have hshared : (sys.update i fun _ => c').latches = sys.latches := by
    rw [latches_update, hp]
    exact hlatches.trans (Core.latches_connect _ _)
  have hprocessor : (sys.update i fun _ => c').processors[j]? =
      sys.processors[j]?.map fun q => if i = j then { q with core := c'.connect {} } else q := by
    rw [← Array.getElem?_toList, processors_update, List.getElem?_modify, Array.getElem?_toList]
    split <;> simp
  have hreconnect : (c'.connect {}).connect sys.latches = c' := by
    have hown : c'.latches = sys.latches := hlatches.trans (Core.latches_connect _ _)
    rw [← hown]
    cases c' <;> rfl
  simp only [values, core?, hprocessor, hshared, Option.map_map]
  by_cases hij : i = j
  · subst hij
    simp [hp, hreconnect, hsame]
  · simp only [if_neg hij]
    rfl

namespace Monitor

variable {mon : Monitor} {m : Machine} {c : Core} {name word : String} {v : Value}

theorem valueLike_of_mem (h : word ∈ Text.words v.text) : valueLike word v = .ok v := by
  cases v with
  | u8 v =>
    have hread := (Numeral.denotes_of_mem_describeByte h).parseByte
    simp only [valueLike, byte, hread, Except.mapError, Except.map]
  | u16 v =>
    have hread := (Numeral.denotes_of_mem_describeWord h).parseWord
    simp only [valueLike, Monitor.word, hread, Except.mapError, Except.map]
  | bool v =>
    have hwords : Text.words "true" = ["true"] ∧ Text.words "false" = ["false"] := ⟨rfl, rfl⟩
    cases v
    · obtain rfl : word = "false" := List.mem_singleton.mp (hwords.2 ▸ h)
      rfl
    · obtain rfl : word = "true" := List.mem_singleton.mp (hwords.1 ▸ h)
      rfl

theorem isWord_of_mem_describe (h : word ∈ Text.words v.text) : Text.IsWord word := by
  cases v with
  | u8 v => exact (Numeral.denotes_of_mem_describeByte h).isWord
  | u16 v => exact (Numeral.denotes_of_mem_describeWord h).isWord
  | bool v =>
    have hwords : ∀ v, ∀ word ∈ Text.words (Value.bool v).text, Text.IsWord word := by
      decide
    exact hwords v word h

theorem isWord_of_value (h : c.value .register name = .ok v) : Text.IsWord name := by
  have hnames : (∀ e ∈ Mos6502.registers, Text.IsWord e.1) ∧
      ∀ e ∈ Z80.registers, Text.IsWord e.1 := by
    decide
  cases c with
  | mos6502 s =>
    obtain ⟨e, he, rfl, -⟩ := RegisterTable.mem_of_value? (Core.value?_of_mos6502 h)
    exact hnames.1 e he
  | z80 s =>
    obtain ⟨e, he, rfl, -⟩ := RegisterTable.mem_of_value? (Core.value?_of_z80 h)
    exact hnames.2 e he
  | counter s => contradiction

theorem respond_show (hsound : m.poisoned = false) (hc : m.system.core? mon.core = some c)
    (hv : c.value .register name = .ok v) :
    mon.respond m "cpu" ["reg", name] = .ok ⟨[v.text], mon, m⟩ := by
  have hcount : checkCount [name] 0 2 = .ok () := rfl
  change mon.registers m .register [name] = _
  simp only [registers, hcount, selected_of_core? hsound hc, mapError_of_ok hv, ok_bind]

theorem respond_put {c' : Core} (hsound : m.poisoned = false)
    (hc : m.system.core? mon.core = some c) (hv : c.value .register name = .ok v)
    (hword : word ∈ Text.words v.text) (hput : c.put .register name v = .ok c') :
    mon.respond m "cpu" ["reg", name, word] =
      .ok ⟨[], mon, { m with system := m.system.update mon.core fun _ => c' }⟩ := by
  have hcount : checkCount [name, word] 0 2 = .ok () := rfl
  change mon.registers m .register [name, word] = _
  simp only [registers, hcount, selected_of_core? hsound hc, mapError_of_ok hv,
    valueLike_of_mem hword, mapError_of_ok hput, ok_bind]

theorem eval_show (hsound : m.poisoned = false) (hc : m.system.core? mon.core = some c)
    (hv : c.value .register name = .ok v) :
    mon.eval m (Text.line ["cpu", "reg", name]) =
      ({ mon.forget with out := (mon.out.writeLines [v.text]).1 },
        noted m (Text.line ["cpu", "reg", name]),
        if (mon.out.writeLines [v.text]).2 then .ok () else .error (.stream .shortWrite)) := by
  have hwords : ∀ w ∈ ["cpu", "reg", name], Text.IsWord w := by
    simp only [List.forall_mem_cons]
    exact ⟨by decide, by decide, isWord_of_value hv, List.forall_mem_nil _⟩
  have hanswer : mon.forget.respond (noted m (Text.line ["cpu", "reg", name])) "cpu" ["reg", name] =
      .ok ⟨[v.text], mon.forget, _⟩ := respond_show hsound hc hv
  rw [eval_line mon m hwords, hanswer, settle_shown]
  rfl

theorem eval_put (hsound : m.poisoned = false)
    (hc : m.system.core? mon.core = some c) (hproper : c.Proper)
    (hv : c.value .register name = .ok v) (hword : word ∈ Text.words v.text) :
    (mon.eval m (Text.line ["cpu", "reg", name, word])).2.2 = .ok () ∧
      ∀ k i, (mon.eval m (Text.line ["cpu", "reg", name, word])).2.1.system.values k i =
        m.system.values k i := by
  have hwords : ∀ w ∈ ["cpu", "reg", name, word], Text.IsWord w := by
    simp only [List.forall_mem_cons]
    exact ⟨by decide, by decide, isWord_of_value hv, isWord_of_mem_describe hword,
      List.forall_mem_nil _⟩
  obtain ⟨c', hput, hlatches, hsame⟩ := Core.put_value hproper hv
  have hanswer : mon.forget.respond (noted m (Text.line ["cpu", "reg", name, word])) "cpu"
      ["reg", name, word] = .ok ⟨[], mon.forget, _⟩ := respond_put hsound hc hv hword hput
  rw [eval_line mon m hwords, hanswer, settle_nil]
  exact ⟨rfl, System.values_update hc hlatches hsame⟩

end Monitor

/-- Every numeral that is printed is read as the number that it was printed for, and each word of a
printed byte or word as its value. So an operator who shows a register and writes any word of the
answer back to it leaves all registers and flags of all processors as they were. -/
theorem printed_values_parse_back :
    (∀ v : UInt32, Numeral.parse (Numeral.hex 0 v.toNat) 32 = .ok v.toNat ∧
      Numeral.parse (Numeral.binary v.toNat) 32 = .ok v.toNat ∧
      Numeral.parse (Numeral.decimal v.toNat) 32 = .ok v.toNat) ∧
    (∀ v : UInt16, Numeral.parseWord (Numeral.hexWord v) = .ok v ∧
      Numeral.parseWord (Numeral.binaryWord v) = .ok v ∧
      ∀ word ∈ Text.words (Numeral.describeWord v), Numeral.parseWord word = .ok v) ∧
    (∀ v : UInt8, Numeral.parseByte (Numeral.hexByte v) = .ok v ∧
      Numeral.parseByte (Numeral.binaryByte v) = .ok v ∧
      ∀ word ∈ Text.words (Numeral.describeByte v), Numeral.parseByte word = .ok v) ∧
    ∀ (mon : Monitor) (m : Machine) (c : Core) (name : String) (v : Value),
      m.poisoned = false → m.system.core? mon.core = some c → c.Proper →
      c.value .register name = .ok v →
        let shown := mon.eval m (Text.line ["cpu", "reg", name])
        shown.1.out = (mon.out.writeLines [v.text]).1 ∧
          (shown.2.2 = .ok () ↔ (mon.out.writeLines [v.text]).2 = true) ∧
          ∀ word ∈ Text.words v.text,
            let given := shown.1.eval shown.2.1 (Text.line ["cpu", "reg", name, word])
            given.2.2 = .ok () ∧
              ∀ k i, given.2.1.system.values k i = m.system.values k i := by
  refine ⟨?numbers, ?words, ?bytes, ?registers⟩
  case numbers =>
    intro v
    exact ⟨(Numeral.denotes_hex 0 v.toNat).parse v.toNat_lt,
      (Numeral.denotes_binaryDigits 0 v.toNat).parse v.toNat_lt,
      (Numeral.denotes_decimal v.toNat).parse v.toNat_lt⟩
  case words =>
    intro v
    exact ⟨(Numeral.denotes_hex 4 v.toNat).parseWord, (Numeral.denotes_binaryWord v).parseWord,
      fun word h => (Numeral.denotes_of_mem_describeWord h).parseWord⟩
  case bytes =>
    intro v
    exact ⟨(Numeral.denotes_hex 2 v.toNat).parseByte, (Numeral.denotes_binaryByte v).parseByte,
      fun word h => (Numeral.denotes_of_mem_describeByte h).parseByte⟩
  case registers =>
    intro mon m c name v hsound hc hproper hv
    rw [Monitor.eval_show hsound hc hv]
    refine ⟨rfl, ?_, ?_⟩
    · cases (mon.out.writeLines [v.text]).2 <;> simp
    · intro word hword
      exact Monitor.eval_put hsound hc hproper hv hword

def numbered : Z80 :=
  { Z80.powerOn (Memory.ram 16) (Memory.ram 16) {} with
    h := 0x12, l := 0x34, im := 2, halted := true }

def numberedPair : Machine :=
  .assemble (fun _ => .ok [])
    { name := "pair"
      processors :=
        #[⟨"cpu", .mos6502 (Mos6502.powerOn (Memory.ram 16) {})⟩, ⟨"z80", .z80 numbered⟩]
      latches := {}
      tickers := []
      catalog := Catalog.basic
      saved := none
      screen := none } 1

theorem printed_values_parse_back_of_pair :
    let mon : Monitor := { core := 1, cursors := #[{}, {}], encoding := "ascii" }
    let shown := mon.eval numberedPair (Text.line ["cpu", "reg", "hl"])
    let given := shown.1.eval shown.2.1 (Text.line ["cpu", "reg", "hl", "+4660"])
    numberedPair.poisoned = false ∧ numberedPair.system.core? mon.core = some (.z80 numbered) ∧
      (Core.z80 numbered).Proper ∧ (Core.z80 numbered).value .register "hl" = .ok (.u16 0x1234) ∧
      Text.words (Value.u16 0x1234).text = ["$1234", "+4660"] ∧ shown.2.2 = .ok () ∧
      given.2.2 = .ok () ∧
      ∀ k i, given.2.1.system.values k i = numberedPair.system.values k i := by
  intro mon shown given
  have hcore : numberedPair.system.core? mon.core = some (.z80 numbered) := rfl
  have hproper : (Core.z80 numbered).Proper := (by decide : (2 : UInt8) ≤ 2)
  have hvalue : (Core.z80 numbered).value .register "hl" = .ok (.u16 0x1234) := rfl
  have hwords : Text.words (Value.u16 0x1234).text = ["$1234", "+4660"] := by decide
  obtain ⟨-, -, -, hregisters⟩ := printed_values_parse_back
  obtain ⟨-, hshown, hgiven⟩ :=
    hregisters mon numberedPair (.z80 numbered) "hl" (.u16 0x1234) rfl hcore hproper hvalue
  exact ⟨rfl, hcore, hproper, hvalue, hwords, hshown.mpr rfl,
    hgiven "+4660" (by rw [hwords]; simp)⟩

end EightBit
