import EightBit.Proofs.Mos6502.Interrupts
import EightBit.Proofs.Z80.Storage

/-!
The stacks of both processors give back last what was pushed first.

A stack is the storage below a pointer that wraps around: within page one on the 6502, and in all of
memory on the Z80, where the end of memory may fall between the two bytes of a word. Up to the
capacity of that storage no push runs over an older one.
-/

namespace EightBit

section Stack

variable {σ α : Type} {push : σ → α → σ} {pop : σ → α × σ}

/-- The values that so many pops give, and the state behind them. -/
def popAll (pop : σ → α × σ) : Nat → σ → List α × σ
  | 0, s => ([], s)
  | n + 1, s =>
    let (v, s) := pop s
    let (vs, s) := popAll pop n s
    (v :: vs, s)

/-- The first pop stands before all others. -/
theorem popAll_succ (n : Nat) (s : σ) :
    popAll pop (n + 1) s =
      ((pop s).1 :: (popAll pop n (pop s).2).1, (popAll pop n (pop s).2).2) := rfl

/-- The last pop stands behind all others. -/
theorem popAll_succ_last (n : Nat) (s : σ) :
    popAll pop (n + 1) s =
      ((popAll pop n s).1 ++ [(pop (popAll pop n s).2).1], (pop (popAll pop n s).2).2) := by
  induction n generalizing s with
  | zero => rfl
  | succ n ih => rw [popAll_succ, ih, popAll_succ, List.cons_append]

/-- Whether a pop undoes a push with up to `capacity` values in between that were pushed and popped
again. `Left n s t` says that `t` is `s` but for what `n` such values leave behind. -/
structure Undoes (push : σ → α → σ) (pop : σ → α × σ) (capacity : Nat) (Sound : σ → Prop)
    (Left : Nat → σ → σ → Prop) : Prop where
  sound : ∀ {s} v, Sound s → Sound (push s v)
  start : ∀ {s}, Sound s → Left 0 s s
  undo : ∀ {n s v t}, n < capacity → Sound s → Left n (push s v) t →
    (pop t).1 = v ∧ Left (n + 1) s (pop t).2

theorem Undoes.popAll {capacity : Nat} {Sound : σ → Prop} {Left : Nat → σ → σ → Prop}
    (h : Undoes push pop capacity Sound Left) {vs : List α} (hvs : vs.length ≤ capacity) {s : σ}
    (hs : Sound s) :
    (EightBit.popAll pop vs.length (vs.foldl push s)).1 = vs.reverse ∧
      Left vs.length s (EightBit.popAll pop vs.length (vs.foldl push s)).2 := by
  -- The value that is pushed first is popped last, with all others in between.
  induction vs generalizing s with
  | nil => exact ⟨rfl, h.start hs⟩
  | cons v vs ih =>
    rw [List.length_cons] at hvs
    obtain ⟨hvalues, hleft⟩ := ih (by omega) (h.sound v hs)
    obtain ⟨hvalue, hleft⟩ := h.undo (by omega) hs hleft
    rw [List.length_cons, List.foldl_cons, popAll_succ_last, hvalues, hvalue,
      List.reverse_cons]
    exact ⟨rfl, hleft⟩

/-- Pops give the same values in states that are alike as far as they look. -/
theorem popAll_congr (Alike : Nat → σ → σ → Prop)
    (hpop : ∀ {n t u}, Alike (n + 1) t u →
      (pop t).1 = (pop u).1 ∧ Alike n (pop t).2 (pop u).2)
    {n : Nat} {t u : σ} (h : Alike n t u) : (popAll pop n t).1 = (popAll pop n u).1 := by
  induction n generalizing t u with
  | zero => rfl
  | succ n ih =>
    obtain ⟨hvalue, halike⟩ := hpop h
    rw [popAll_succ, popAll_succ, hvalue, ih halike]

end Stack

namespace Mos6502

theorem sub_one_sub_ofNat (v : UInt8) (k : Nat) :
    v - 1 - UInt8.ofNat k = v - UInt8.ofNat (k + 1) := by
  rw [UInt8.ofNat_add]
  grind

theorem ne_sub_ofNat_succ (v : UInt8) {k : Nat} (hk : k + 1 < 0x100) :
    v ≠ v - UInt8.ofNat (k + 1) := by
  have hv := v.toNat_lt
  rw [Ne, ← UInt8.toNat_inj, UInt8.toNat_sub, UInt8.toNat_ofNat']
  omega

structure Unstacked (n : Nat) (s t : Mos6502) : Prop where
  registers : t = { s with mem := t.mem }
  read : ∀ addr, (∀ k < n, addr ≠ stackAddress (s.sp - UInt8.ofNat k)) → t.read addr = s.read addr

theorem undoes_push : Undoes push pull 0x100 (·.mem.InstanceOf (Memory.ram 0x10000)) Unstacked where
  sound v hs := instanceOf_push hs v
  start _ := ⟨rfl, fun _ _ => rfl⟩
  undo {n s v t} hn hs hleft := by
    obtain ⟨hregisters, hread⟩ := hleft
    have hpushed : t = { s with sp := s.sp - 1, mem := t.mem } := by
      rw [push_eq hs] at hregisters
      exact hregisters
    have hpointer : (s.push v).sp = s.sp - 1 := by rw [push_eq hs]
    have htop : t.sp + 1 = s.sp := by
      rw [hpushed]
      exact UInt8.sub_add_cancel _ _
    simp only [hpointer, sub_one_sub_ofNat] at hread
    constructor
    · have hspared : t.read (stackAddress s.sp) = (s.push v).read (stackAddress s.sp) :=
        hread _ fun k hk => mt stackAddress_inj.mp (ne_sub_ofNat_succ s.sp (by omega))
      rw [pull, htop, hspared, read_push hs, if_pos rfl]
    · constructor
      · rw [pull, htop, hpushed]
      · intro addr haddr
        have hzero : s.sp - UInt8.ofNat 0 = s.sp := UInt8.sub_zero _
        have hfirst := haddr 0 (by omega)
        rw [hzero] at hfirst
        have hunchanged := hread addr fun k hk => haddr (k + 1) (by omega)
        rw [read_push hs, if_neg hfirst] at hunchanged
        exact hunchanged

/-- Pulling looks at nothing but the stack pointer and page one. -/
theorem pulls_congr {n : Nat} {t u : Mos6502} (hsp : t.sp = u.sp)
    (hread : ∀ v, t.read (stackAddress v) = u.read (stackAddress v)) :
    (popAll pull n t).1 = (popAll pull n u).1 := by
  refine popAll_congr (fun _ t u => t.sp = u.sp ∧
    ∀ v, t.read (stackAddress v) = u.read (stackAddress v)) ?_ ⟨hsp, hread⟩
  rintro n t u ⟨hsp, hread⟩
  rw [pull, pull, hsp]
  exact ⟨hread _, rfl, hread⟩

end Mos6502

namespace Z80

theorem sub_two_sub_ofNat (w : UInt16) (k : Nat) :
    w - 2 - UInt16.ofNat k = w - UInt16.ofNat (k + 2) := by
  rw [UInt16.ofNat_add]
  grind

/-- All addresses below a pointer differ, once around memory. -/
theorem sub_ofNat_ne (w : UInt16) {j k : Nat} (hjk : j < k) (hk : k < j + 0x10000) :
    w - UInt16.ofNat j ≠ w - UInt16.ofNat k := by
  have hw := w.toNat_lt
  rw [Ne, ← UInt16.toNat_inj, UInt16.toNat_sub, UInt16.toNat_sub, UInt16.toNat_ofNat',
    UInt16.toNat_ofNat']
  omega

structure Unstacked (n : Nat) (s t : Z80) : Prop where
  registers : t = { s with mem := t.mem }
  read : ∀ addr, (∀ k, 1 ≤ k → k ≤ 2 * n → addr ≠ s.sp - UInt16.ofNat k) →
    t.read addr = s.read addr

theorem undoes_push : Undoes push pop 0x8000 (·.mem.InstanceOf (Memory.ram 0x10000)) Unstacked where
  sound w hs := instanceOf_push hs w
  start _ := ⟨rfl, fun _ _ => rfl⟩
  undo {n s w t} hn hs hleft := by
    obtain ⟨hregisters, hread⟩ := hleft
    have hpushed : t = { s with sp := s.sp - 2, mem := t.mem } := by
      rw [push_eq hs] at hregisters
      exact hregisters
    have hpointer : (s.push w).sp = s.sp - 2 := by rw [push_eq hs]
    have htop : t.sp = s.sp - 2 := by rw [hpushed]
    simp only [hpointer, sub_two_sub_ofNat] at hread
    constructor
    · have hspared {j : Nat} (hj : j = 1 ∨ j = 2) :
          t.read (s.sp - UInt16.ofNat j) = (s.push w).read (s.sp - UInt16.ofNat j) := by
        apply hread
        intro k hpos hk
        exact sub_ofNat_ne s.sp (by omega) (by omega)
      have habove : s.sp - 2 + 1 = s.sp - UInt16.ofNat 1 := by grind
      have hhigh := hspared (.inl rfl)
      have hlow := hspared (.inr rfl)
      rw [← habove] at hhigh
      rw [← readWord_push hs w, pop, htop, readWord, readWord, hhigh]
      exact congrArg (word _) hlow
    · constructor
      · rw [pop, hpushed]
        exact congrArg (fun sp => { s with sp, mem := t.mem }) (UInt16.sub_add_cancel _ _)
      · intro addr haddr
        have habove : addr ≠ s.sp - 1 := haddr 1 (by omega) (by omega)
        have hbelow : addr ≠ s.sp - 2 := haddr 2 (by omega) (by omega)
        have hunchanged := hread addr fun k hpos hk => haddr (k + 2) (by omega) (by omega)
        rw [read_push hs, if_neg habove, if_neg hbelow] at hunchanged
        exact hunchanged

theorem sp_push (s : Z80) (w : UInt16) : (s.push w).sp = s.sp - 2 := rfl

theorem sp_pushes (s : Z80) (ws : List UInt16) :
    (ws.foldl push s).sp = s.sp - UInt16.ofNat (2 * ws.length) := by
  induction ws generalizing s with
  | nil => exact (UInt16.sub_zero _).symm
  | cons w ws ih =>
    rw [List.foldl_cons, ih, sp_push, sub_two_sub_ofNat, List.length_cons, Nat.mul_succ]

/-- Popping looks at nothing but the stack pointer and two bytes for each word. -/
theorem pops_congr {n : Nat} {t u : Z80} (hsp : t.sp = u.sp)
    (hread : ∀ k < 2 * n, t.read (t.sp + UInt16.ofNat k) = u.read (t.sp + UInt16.ofNat k)) :
    (popAll pop n t).1 = (popAll pop n u).1 := by
  refine popAll_congr (fun n t u => t.sp = u.sp ∧
    ∀ k < 2 * n, t.read (t.sp + UInt16.ofNat k) = u.read (t.sp + UInt16.ofNat k)) ?_ ⟨hsp, hread⟩
  rintro n t u ⟨hsp, hread⟩
  have hlow : t.read t.sp = u.read t.sp := by
    have h := hread 0 (by omega)
    rwa [show t.sp + UInt16.ofNat 0 = t.sp from UInt16.add_zero _] at h
  have hhigh : t.read (t.sp + 1) = u.read (t.sp + 1) := hread 1 (by omega)
  refine ⟨?_, ?_, ?_⟩
  · rw [pop, pop, readWord, readWord, hlow, hhigh, hsp]
  · rw [pop, pop, hsp]
  · intro k hk
    have hword : t.sp + 2 + UInt16.ofNat k = t.sp + UInt16.ofNat (k + 2) := by
      rw [UInt16.ofNat_add]
      grind
    have h := hread (k + 2) (by omega)
    rw [← hword] at h
    exact h

end Z80

/-- Pulling as often as was pushed gives back the values in reverse order and restores the stack
pointer, wherever it was. Of memory only page one, or the bytes below the stack pointer, is written
or looked at. -/
theorem stacks_reverse :
    (∀ (s : Mos6502) (vs : List UInt8), s.mem.InstanceOf (Memory.ram 0x10000) →
      vs.length ≤ 0x100 →
      let pushed := vs.foldl Mos6502.push s
      let pulled := popAll Mos6502.pull vs.length pushed
      pulled.1 = vs.reverse ∧ pulled.2 = { s with mem := pulled.2.mem } ∧
        (∀ addr, addr.toNat < 0x100 ∨ 0x1ff < addr.toNat → pulled.2.read addr = s.read addr) ∧
        ∀ u, u.sp = pushed.sp →
          (∀ addr, 0x100 ≤ addr.toNat → addr.toNat ≤ 0x1ff → u.read addr = pushed.read addr) →
          (popAll Mos6502.pull vs.length u).1 = vs.reverse) ∧
    (∀ (s : Z80) (ws : List UInt16), s.mem.InstanceOf (Memory.ram 0x10000) →
      ws.length ≤ 0x8000 →
      let pushed := ws.foldl Z80.push s
      let popped := popAll Z80.pop ws.length pushed
      popped.1 = ws.reverse ∧ popped.2 = { s with mem := popped.2.mem } ∧
        (∀ addr, (∀ k, 1 ≤ k → k ≤ 2 * ws.length → addr ≠ s.sp - UInt16.ofNat k) →
          popped.2.read addr = s.read addr) ∧
        ∀ u, u.sp = pushed.sp →
          (∀ k, 1 ≤ k → k ≤ 2 * ws.length →
            u.read (s.sp - UInt16.ofNat k) = pushed.read (s.sp - UInt16.ofNat k)) →
          (popAll Z80.pop ws.length u).1 = ws.reverse) := by
  constructor
  · intro s vs hs hvs pushed pulled
    obtain ⟨hvalues, hleft⟩ := Mos6502.undoes_push.popAll hvs hs
    refine ⟨hvalues, hleft.registers, ?_, ?_⟩
    · intro addr haddr
      apply hleft.read
      rintro k - rfl
      have hsp := (s.sp - UInt8.ofNat k).toNat_lt
      rw [Mos6502.toNat_stackAddress] at haddr
      omega
    · intro u hsp hread
      rw [← hvalues]
      apply Mos6502.pulls_congr hsp
      intro v
      have hv := v.toNat_lt
      have hpage := Mos6502.toNat_stackAddress v
      exact hread _ (by omega) (by omega)
  · intro s ws hs hws pushed popped
    obtain ⟨hvalues, hleft⟩ := Z80.undoes_push.popAll hws hs
    refine ⟨hvalues, hleft.registers, hleft.read, ?_⟩
    intro u hsp hread
    rw [← hvalues]
    apply Z80.pops_congr hsp
    intro k hk
    have haddr : u.sp + UInt16.ofNat k = s.sp - UInt16.ofNat (2 * ws.length - k) := by
      have hpushed : u.sp = s.sp - UInt16.ofNat (2 * ws.length) := hsp.trans (Z80.sp_pushes s ws)
      have hsum : UInt16.ofNat (2 * ws.length) =
          UInt16.ofNat (2 * ws.length - k) + UInt16.ofNat k := by
        rw [← UInt16.ofNat_add]
        congr 1
        omega
      rw [hpushed, hsum]
      grind
    rw [haddr]
    exact hread _ (by omega) (by omega)

/-- A full page of bytes comes back to a stack pointer in the middle of it, and so do two words of
which one lies across the end of memory. -/
theorem stacks_reverse_around_end :
    let bytes := (List.range 0x100).map UInt8.ofNat
    let s := { Mos6502.powerOn (Memory.ram 0x10000) {} with sp := 0x80 }
    let z := { Z80.powerOn (Memory.ram 0x10000) (Memory.ram Z80.portSpace) {} with sp := 1 }
    (popAll Mos6502.pull 0x100 (bytes.foldl Mos6502.push s)).1 = bytes.reverse ∧
      (popAll Z80.pop 2 ([0x1234, 0x5678].foldl Z80.push z)).1 = [0x5678, 0x1234] := by
  obtain ⟨hmos, hz80⟩ := stacks_reverse
  have hram := Memory.instanceOf_ram 0x10000
  intro bytes s z
  have hlength : bytes.length = 0x100 := by
    rw [List.length_map, List.length_range]
  have hbytes := (hmos s bytes hram (by omega)).1
  rw [hlength] at hbytes
  exact ⟨hbytes, (hz80 z [0x1234, 0x5678] hram (by decide)).1⟩

end EightBit
