import EightBit.Proofs.Mos6502.Boundary
import EightBit.Proofs.Z80.Boundary
import Mathlib.Data.List.Chain

/-!
Listings tile memory.

A lister reads one instruction at each address and lists the bytes that are there. So statement
follows statement without gap or overlap, and a listing that is taken up again where one of its
statements starts goes on with the same statements.
-/

namespace EightBit

/-- What the listing of a stretch of code asks of a lister: it reads the instruction at the address
that it is given, and lists the one to four bytes that are there. -/
def Lister.Faithful (lister : Lister) : Prop :=
  ∀ code pc, (lister code pc).addr = pc ∧
    ∃ n, 1 ≤ n ∧ n ≤ 4 ∧ (lister code pc).bytes = (List.range' pc n).map code

namespace Lister.Faithful

variable {lister : Lister} (h : lister.Faithful) (code : Code) (pc : Nat)
include h

theorem addr : (lister code pc).addr = pc := (h code pc).1

theorem length : 1 ≤ (lister code pc).bytes.length ∧ (lister code pc).bytes.length ≤ 4 := by
  obtain ⟨-, n, hpos, hle, hbytes⟩ := h code pc
  rw [hbytes, List.length_map, List.length_range']
  exact ⟨hpos, hle⟩

theorem bytes :
    (lister code pc).bytes = (List.range' pc (lister code pc).bytes.length).map code := by
  obtain ⟨-, n, -, -, hbytes⟩ := h code pc
  rw [hbytes, List.length_map, List.length_range']

theorem next : (lister code pc).next = pc + (lister code pc).bytes.length := by
  rw [Statement.next, h.addr]

theorem lt_next : pc < (lister code pc).next := by
  have hlength := h.length code pc
  rw [h.next]
  omega

end Lister.Faithful

/-- An undefined opcode is listed alone, and any other with the bytes of its operand. -/
theorem Mos6502.faithful_lister : Lister.Faithful Mos6502.lister := by
  intro code pc
  unfold lister
  simp only
  split
  · exact ⟨rfl, 1, by decide, by decide, rfl⟩
  · next m mode _ =>
    have hbytes := mode.operandBytes_le
    exact ⟨rfl, 1 + mode.operandBytes, by omega, by omega, rfl⟩

namespace Z80

theorem Lister.length_readIndexed (code : Code) (addr : Nat) (i : Index) :
    1 ≤ (readIndexed code addr i).length ∧ (readIndexed code addr i).length ≤ 4 := by
  have hbehind := behindBase_le i (code (addr + 1))
  rw [readIndexed_eq]
  split
  · simp
  · next hvoids =>
    split
    · simp [length_readBits]
    · split
      · rw [length_readBase code (addr + 1) 1 i (by simpa using hvoids)]
        omega
      · simp

theorem Lister.length_read (code : Code) (addr : Nat) :
    1 ≤ (read code addr).length ∧ (read code addr).length ≤ 4 := by
  have hbehind := behindBase_le .hl (code addr)
  unfold read
  simp only
  split
  · simp [length_readBits]
  · split
    · have himmediate := extendedBytes_le (code (addr + 1))
      rw [length_readExtended]
      omega
    · split
      · exact length_readIndexed code addr .ix
      · split
        · exact length_readIndexed code addr .iy
        · next hextended hix hiy =>
          have hplain : Instruction.voids (code addr) = false := by
            simp_all [Instruction.voids]
          rw [length_readBase code addr 0 .hl hplain]
          omega

/-- Prefixes, displacements and immediate operands are listed with the opcode that they belong
to. -/
theorem faithful_lister : EightBit.Lister.Faithful Z80.lister := by
  intro code pc
  obtain ⟨hpos, hle⟩ := Lister.length_read code pc
  exact ⟨rfl, (Lister.read code pc).length, hpos, hle, rfl⟩

end Z80

namespace Listing

variable {lister : Lister} {code : Code} {last pc : Nat}

theorem step_eq (h : lister.Faithful) (code : Code) (pc : Nat) :
    step lister code pc = (lister code pc, (lister code pc).next) := by
  have hlt := h.lt_next code pc
  have hmax : max (lister code pc).next (pc + 1) = (lister code pc).next := by omega
  rw [step, hmax]

theorem lines_succ (h : lister.Faithful) (code : Code) (n pc : Nat) :
    lines lister code (n + 1) pc =
      (lister code pc :: (lines lister code n (lister code pc).next).1,
        (lines lister code n (lister code pc).next).2) := by
  simp only [lines, step_eq h]

theorem range_of_le (h : lister.Faithful) (hpc : pc ≤ last) :
    range lister code last pc =
      (lister code pc :: (range lister code last (lister code pc).next).1,
        (range lister code last (lister code pc).next).2) := by
  rw [range, if_pos hpc, step_eq h]

theorem range_of_lt (hpc : last < pc) : range lister code last pc = ([], pc) := by
  rw [range, if_neg (Nat.not_le.mpr hpc)]

/-- The statements that a lister reads one behind the other from `pc` on, as long as they start at
or before `last`, and the address behind them. -/
inductive Reads (lister : Lister) (code : Code) (last : Nat) :
    Nat → List Statement → Nat → Prop
  | done {pc : Nat} (hpc : last < pc) : Reads lister code last pc [] pc
  | next {pc behind : Nat} {ss : List Statement} (hpc : pc ≤ last)
      (rest : Reads lister code last (lister code pc).next ss behind) :
      Reads lister code last pc (lister code pc :: ss) behind

theorem reads_range (h : lister.Faithful) (code : Code) (last pc : Nat) :
    Reads lister code last pc (range lister code last pc).1 (range lister code last pc).2 := by
  -- A statement is never empty, so less of the range is left behind each.
  induction hn : last + 1 - pc using Nat.strong_induction_on generalizing pc with
  | _ n ih =>
    by_cases hpc : pc ≤ last
    · have hlt := h.lt_next code pc
      rw [range_of_le h hpc]
      exact .next hpc (ih _ (by omega) _ rfl)
    · rw [range_of_lt (Nat.not_le.mp hpc)]
      exact .done (Nat.not_le.mp hpc)

namespace Reads

variable {ss : List Statement} {behind : Nat}

theorem range_eq (h : lister.Faithful) (hreads : Reads lister code last pc ss behind) :
    range lister code last pc = (ss, behind) := by
  induction hreads with
  | done hpc => exact range_of_lt hpc
  | next hpc _ ih => rw [range_of_le h hpc, ih]

theorem lines_eq (h : lister.Faithful) (hreads : Reads lister code last pc ss behind) :
    lines lister code ss.length pc = (ss, behind) := by
  induction hreads with
  | done _ => rfl
  | next _ _ ih => rw [List.length_cons, lines_succ h, ih]

theorem length_le (h : lister.Faithful) (hreads : Reads lister code last pc ss behind) :
    ss.length ≤ last + 1 - pc := by
  induction hreads with
  | done _ => exact Nat.zero_le _
  | @next pc _ _ hpc _ ih =>
    have hlt := h.lt_next code pc
    rw [List.length_cons]
    omega

theorem lt_behind (hreads : Reads lister code last pc ss behind) : last < behind := by
  induction hreads with
  | done hpc => exact hpc
  | next _ _ ih => exact ih

theorem head (h : lister.Faithful) (hreads : Reads lister code last pc ss behind) :
    ∀ s ∈ ss.head?, s.addr = pc := by
  cases hreads with
  | done _ => simp
  | next _ _ => simp [h.addr]

theorem chained (h : lister.Faithful) (hreads : Reads lister code last pc ss behind) :
    ss.IsChain fun s t => t.addr = s.next := by
  induction hreads with
  | done _ => exact .nil
  | next _ rest ih => exact List.isChain_cons.mpr ⟨rest.head h, ih⟩

theorem read (h : lister.Faithful) (hreads : Reads lister code last pc ss behind) :
    ∀ s ∈ ss, s.addr ≤ last ∧ s = lister code s.addr := by
  induction hreads with
  | done _ => simp
  | next hpc _ ih =>
    rw [List.forall_mem_cons, h.addr]
    exact ⟨⟨hpc, rfl⟩, ih⟩

/-- The bytes of the statements, one behind the other, are those of the code. -/
theorem bytes (h : lister.Faithful) (hreads : Reads lister code last pc ss behind) :
    pc ≤ behind ∧ ss.flatMap Statement.bytes = (List.range' pc (behind - pc)).map code := by
  induction hreads with
  | done _ => simp
  | @next pc behind ss _ _ ih =>
    obtain ⟨hle, hrest⟩ := ih
    have hnext := h.next code pc
    have hlength : behind - pc =
        (lister code pc).bytes.length + (behind - (lister code pc).next) := by omega
    refine ⟨by omega, ?_⟩
    rw [List.flatMap_cons, hrest, hlength, ← List.range'_append_1, List.map_append,
      ← h.bytes code pc, hnext]

/-- Every statement starts the rest of the listing. -/
theorem suffix (h : lister.Faithful) {before after : List Statement} {s : Statement}
    (hreads : Reads lister code last pc (before ++ s :: after) behind) :
    Reads lister code last s.addr (s :: after) behind := by
  induction before generalizing pc with
  | nil =>
    rw [hreads.head h s rfl]
    exact hreads
  | cons t before ih =>
    cases hreads with
    | next _ rest => exact ih rest

end Reads

/-- How a listing from `start` to `last` lies in memory: its statements, and the address where it
ends. -/
structure Tiles (lister : Lister) (m : Memory) (l : Latches) (start last : Nat)
    (listed : List Statement × Nat) : Prop where
  /-- The first statement starts where the listing does. -/
  first : ∀ s ∈ listed.1.head?, s.addr = start
  /-- Each statement starts behind the one before. -/
  chained : listed.1.IsChain fun s t => t.addr = s.next
  /-- A statement has one to four bytes. -/
  sizes : ∀ s ∈ listed.1, 1 ≤ s.bytes.length ∧ s.bytes.length ≤ 4
  /-- A statement may go beyond `last` but starts before or there. -/
  starts : ∀ s ∈ listed.1, s.addr ≤ last
  /-- The listing ends behind `last`, unless that is where it starts. -/
  passes : start ≤ last → last < listed.2
  empty : last < start → listed = ([], start)
  /-- The bytes of all statements are the bytes of memory in between. -/
  bytes : listed.1.flatMap Statement.bytes = m.readAll l start (listed.2 - start)
  /-- Reading that many statements gives the same listing, and there are no more of them than
  addresses where they can start. -/
  lines : Listing.lines lister (m.read l) listed.1.length start = listed
  count : listed.1.length ≤ last + 1 - start
  /-- A listing that starts with one of the statements goes on as this one does. -/
  restarts : ∀ before s after, listed.1 = before ++ s :: after →
    range lister (m.read l) last s.addr = (s :: after, listed.2) ∧
      Listing.lines lister (m.read l) (after.length + 1) s.addr = (s :: after, listed.2)

theorem Reads.tiles (h : lister.Faithful) {m : Memory} {l : Latches} {start behind : Nat}
    {ss : List Statement} (hreads : Reads lister (m.read l) last start ss behind) :
    Tiles lister m l start last (ss, behind) where
  first := hreads.head h
  chained := hreads.chained h
  sizes := by
    intro s hs
    obtain ⟨-, heq⟩ := hreads.read h s hs
    rw [heq]
    exact h.length _ _
  starts := fun s hs => (hreads.read h s hs).1
  passes := fun _ => hreads.lt_behind
  empty := by
    intro hlast
    rw [← hreads.range_eq h, range_of_lt hlast]
  bytes := (hreads.bytes h).2
  lines := hreads.lines_eq h
  count := hreads.length_le h
  restarts := by
    intro before s after hss
    obtain rfl : ss = before ++ s :: after := hss
    have hrest := hreads.suffix h
    exact ⟨hrest.range_eq h, hrest.lines_eq h⟩

theorem tiles_range (h : lister.Faithful) (m : Memory) (l : Latches) (start last : Nat) :
    Tiles lister m l start last (range lister (m.read l) last start) :=
  (reads_range h (m.read l) last start).tiles h

/-- At least one statement is read up to where the last of them starts. -/
theorem reads_lines (h : lister.Faithful) (code : Code) (n pc : Nat) :
    ∃ last, pc ≤ last ∧
      Reads lister code last pc (lines lister code (n + 1) pc).1
        (lines lister code (n + 1) pc).2 := by
  induction n generalizing pc with
  | zero =>
    have hlt := h.lt_next code pc
    rw [lines_succ h]
    exact ⟨pc, Nat.le_refl pc, .next (Nat.le_refl pc) (.done hlt)⟩
  | succ n ih =>
    have hlt := h.lt_next code pc
    obtain ⟨last, hlast, hreads⟩ := ih (lister code pc).next
    rw [lines_succ h]
    exact ⟨last, by omega, .next (by omega) hreads⟩

theorem length_lines (lister : Lister) (code : Code) (n pc : Nat) :
    (lines lister code n pc).1.length = n := by
  induction n generalizing pc with
  | zero => rfl
  | succ n ih => exact congrArg (· + 1) (ih _)

end Listing

/-- Listings of either processor tile memory, wherever they start and end. -/
theorem listings_tile (m : Memory) (l : Latches) (start last : Nat) :
    Listing.Tiles Mos6502.lister m l start last
        (Listing.range Mos6502.lister (m.read l) last start) ∧
      Listing.Tiles Z80.lister m l start last
        (Listing.range Z80.lister (m.read l) last start) :=
  ⟨Listing.tiles_range Mos6502.faithful_lister m l start last,
    Listing.tiles_range Z80.faithful_lister m l start last⟩

end EightBit
