import EightBit.Proofs.Commands
import EightBit.Proofs.Evaluation
import EightBit.Proofs.Printing
import Mathlib.Data.Finset.Sort

/-!
Breakpoints as a command line sets, lists and clears them.

The breakpoints of a processor are a set of locations, which the machine keeps in ascending order. A
location has thirty-two bits, and the list shows the lower sixteen of them. So a line of the list
stands for all the breakpoints that agree in these, and as a command it clears the lowest one.
-/

namespace EightBit

namespace Watch

theorem mem_insert {k n : Nat} {ks : List Nat} : k ∈ insert n ks ↔ k = n ∨ k ∈ ks := by
  induction ks with
  | nil => simp [insert]
  | cons j ks ih =>
    rw [insert]
    split_ifs with hlt heq
    · simp
    · simp [heq]
    · rw [List.mem_cons, ih, List.mem_cons, or_left_comm]

theorem pairwise_insert {ks : List Nat} (h : ks.Pairwise (· < ·)) (n : Nat) :
    (insert n ks).Pairwise (· < ·) := by
  induction ks with
  | nil => simp [insert]
  | cons j ks ih =>
    obtain ⟨hj, hks⟩ := List.pairwise_cons.mp h
    rw [insert]
    split_ifs with hlt heq
    · exact List.pairwise_cons.mpr
        ⟨List.forall_mem_cons.mpr ⟨hlt, fun k hk => hlt.trans (hj k hk)⟩, h⟩
    · exact h
    · refine List.pairwise_cons.mpr ⟨fun k hk => ?_, ih hks⟩
      rcases mem_insert.mp hk with rfl | hk
      · omega
      · exact hj k hk

theorem insert_sort (n : Nat) (s : Finset Nat) :
    insert n s.sort = (Insert.insert n s : Finset Nat).sort := by
  refine List.SortedLT.eq_of_mem_iff (pairwise_insert s.sortedLT_sort.pairwise n).sortedLT
    (Finset.sortedLT_sort _) fun k => ?_
  simp [mem_insert]

theorem erase_sort (n : Nat) (s : Finset Nat) : s.sort.erase n = (s.erase n).sort := by
  refine List.SortedLT.eq_of_mem_iff
    (s.sortedLT_sort.pairwise.sublist List.erase_sublist).sortedLT
    (Finset.sortedLT_sort _) fun k => ?_
  rw [(s.sort_nodup _).mem_erase_iff]
  simp

end Watch

/-- Taking out some elements, one after the other. -/
theorem foldl_erase (ns : List Nat) (s : Finset Nat) :
    ns.foldl Finset.erase s = s \ ns.toFinset := by
  induction ns generalizing s with
  | nil => simp
  | cons n ns ih =>
    rw [List.foldl_cons, ih]
    ext k
    simp only [Finset.mem_sdiff, Finset.mem_erase, List.toFinset_cons, Finset.mem_insert, not_or]
    tauto

structure Address where
  text : String
  location : Nat
  reads : Numeral.parseAddress text = .ok location

/-- A command that sets a breakpoint, in its long or its short form, or clears one. -/
inductive BreakpointEdit where
  | set (a : Address)
  | add (a : Address)
  | clear (a : Address)

namespace BreakpointEdit

def address : BreakpointEdit → Address
  | set a | add a | clear a => a

def args : BreakpointEdit → List String
  | set a => ["set", a.text]
  | add a => [a.text]
  | clear a => ["clear", a.text]

def line (e : BreakpointEdit) : String := Text.line ("b" :: e.args)

def apply (e : BreakpointEdit) (s : Finset Nat) : Finset Nat :=
  match e with
  | set a | add a => insert a.location s
  | clear a => s.erase a.location

def change (e : BreakpointEdit) (ks : List Nat) : List Nat :=
  match e with
  | set a | add a => Watch.insert a.location ks
  | clear a => ks.erase a.location

theorem change_sort (e : BreakpointEdit) (s : Finset Nat) : e.change s.sort = (e.apply s).sort := by
  cases e with
  | set a => exact Watch.insert_sort a.location s
  | add a => exact Watch.insert_sort a.location s
  | clear a => exact Watch.erase_sort a.location s

theorem isWord (e : BreakpointEdit) : ∀ w ∈ "b" :: e.args, Text.IsWord w := by
  have haddress : Text.IsWord e.address.text := Numeral.isWord_of_parseAddress e.address.reads
  have hverbs : Text.IsWord "b" ∧ Text.IsWord "set" ∧ Text.IsWord "clear" := by decide
  cases e <;> simp_all [args, address]

end BreakpointEdit

namespace Monitor

/-- The selected processor goes by a name that stands for the processor `i`, which has just these
breakpoints. -/
structure BreaksAt (mon : Monitor) (m : Machine) (i : Nat) (s : Finset Nat) : Prop where
  sound : m.poisoned = false
  named : m.indexOf (m.processorName mon.core) = .ok i
  watched : i < m.watches.size
  breakpoints : (m.watch i).breakpoints = s.sort

variable {mon : Monitor} {m : Machine} {i : Nat} {s : Finset Nat}

/-- Taking a line down makes no difference, whatever the monitor has printed and forgotten. -/
theorem BreaksAt.heard (h : mon.BreaksAt m i s) (mon' : Monitor) (hcore : mon'.core = mon.core)
    (line : String) : mon'.BreaksAt (noted m line) i s := by
  refine ⟨h.sound, ?_, h.watched, h.breakpoints⟩
  rw [hcore]
  exact h.named

theorem BreaksAt.breakpoint (h : mon.BreaksAt m i s) (e : BreakpointEdit) :
    mon.breakpoint m e.args =
      .ok ⟨[], mon, m.updateWatch i fun w => { w with breakpoints := e.change w.breakpoints }⟩ := by
  have hcount : checkCount e.args 0 2 = .ok () := by cases e <;> rfl
  have haddress (a : Address) : Monitor.address a.text = .ok a.location := mapError_of_ok a.reads _
  have hset (a : Address) : m.setBreakpoint (m.processorName mon.core) a.location =
      .ok (m.updateWatch i fun w =>
        { w with breakpoints := Watch.insert a.location w.breakpoints }) :=
    map_of_ok h.named _
  simp only [Monitor.breakpoint, hcount, selectedName_of_sound h.sound, ok_bind]
  cases e with
  | set a =>
    simp only [BreakpointEdit.args, haddress, mapError_of_ok (hset a), ok_bind]
    rfl
  | add a =>
    simp only [BreakpointEdit.args, haddress, mapError_of_ok (hset a), ok_bind]
    rfl
  | clear a =>
    have hclear := map_of_ok h.named fun i => ((m.watch i).breakpoints.contains a.location,
      m.updateWatch i fun w => { w with breakpoints := w.breakpoints.erase a.location })
    simp only [BreakpointEdit.args, haddress, Machine.clearBreakpoint, mapError_of_ok hclear,
      ok_bind]
    rfl

/-- One command succeeds and changes the breakpoints as it says. -/
theorem BreaksAt.eval (h : mon.BreaksAt m i s) (e : BreakpointEdit) :
    (mon.eval m e.line).2.2 = .ok () ∧
      (mon.eval m e.line).1.BreaksAt (mon.eval m e.line).2.1 i (e.apply s) := by
  have hnoted : mon.forget.BreaksAt (noted m e.line) i s := h.heard mon.forget rfl e.line
  have hanswer : mon.forget.respond (noted m e.line) "b" e.args = _ := hnoted.breakpoint e
  have hsize : ((noted m e.line).updateWatch i fun w =>
      { w with breakpoints := e.change w.breakpoints }).watches.size = m.watches.size :=
    Array.size_modify
  rw [BreakpointEdit.line, eval_line mon m e.isWord, ← BreakpointEdit.line, hanswer, settle_nil]
  refine ⟨rfl, hnoted.sound, hnoted.named, hsize ▸ h.watched, ?_⟩
  rw [Machine.watch_updateWatch_eq, if_pos ⟨rfl, hnoted.watched⟩, ← e.change_sort,
    ← hnoted.breakpoints]

/-- So do some commands, one after the other. -/
theorem BreaksAt.evalEach (h : mon.BreaksAt m i s) (edits : List BreakpointEdit) :
    (mon.evalEach m (edits.map (·.line))).1.BreaksAt (mon.evalEach m (edits.map (·.line))).2 i
      (edits.foldl (fun s e => e.apply s) s) := by
  induction edits generalizing mon m s with
  | nil => exact h
  | cons e edits ih => exact ih (h.eval e).2

def shownLocation (n : Nat) : String := Numeral.hexWord (UInt16.ofNat n)

/-- The list is printed, and nothing else happens. -/
theorem BreaksAt.list (h : mon.BreaksAt m i s) :
    mon.eval m (Text.line ["b"]) =
      ({ mon.forget with out := (mon.out.writeLines (s.sort.map shownLocation)).1 },
        noted m (Text.line ["b"]),
        if (mon.out.writeLines (s.sort.map shownLocation)).2 then .ok ()
        else .error (.stream .shortWrite)) := by
  have hnoted : mon.forget.BreaksAt (noted m (Text.line ["b"])) i s := h.heard mon.forget rfl _
  have hlocations := map_of_ok hnoted.named fun i =>
    ((noted m (Text.line ["b"])).watch i).breakpoints
  rw [hnoted.breakpoints] at hlocations
  have hanswer : mon.forget.respond (noted m (Text.line ["b"])) "b" [] =
      .ok ⟨s.sort.map shownLocation, mon.forget, noted m (Text.line ["b"])⟩ := by
    simp only [respond, Monitor.breakpoint, checkCount, selectedName_of_sound hnoted.sound,
      Machine.breakpoints, mapError_of_ok hlocations, ok_bind]
    rfl
  rw [eval_line mon m (by decide), hanswer, settle_shown]
  rfl

/-- A line of the list read as an address: the lower sixteen bits of a location. -/
def shownAddress (n : Nat) : Address where
  text := shownLocation n
  location := n % 2 ^ 16
  reads := by
    have hdenotes := Numeral.denotes_hex 4 (UInt16.ofNat n).toNat
    rw [UInt16.toNat_ofNat'] at hdenotes
    have hlt : n % 2 ^ 16 < 2 ^ 32 := (Nat.mod_lt n (by decide)).trans (by decide)
    exact (Numeral.parseAddress_eq_ok_iff _ _).mpr ⟨hdenotes, hlt, fun _ => hlt⟩

theorem shownLocation_eq_iff (n k : Nat) :
    shownLocation n = shownLocation k ↔ n % 2 ^ 16 = k % 2 ^ 16 := by
  constructor
  · intro h
    have hread : Numeral.parseAddress (shownLocation n) = .ok (k % 2 ^ 16) :=
      h ▸ (shownAddress k).reads
    exact Except.ok.inj ((shownAddress n).reads.symm.trans hread)
  · intro h
    rw [shownLocation, shownLocation, Numeral.hexWord, Numeral.hexWord, UInt16.toNat_ofNat',
      UInt16.toNat_ofNat', h]

theorem nodup_shownLocation (s : Finset Nat) :
    (s.sort.map shownLocation).Nodup ↔
      ∀ n ∈ s, ∀ k ∈ s, n % 2 ^ 16 = k % 2 ^ 16 → n = k := by
  simp only [List.nodup_map_iff_inj_on (s.sort_nodup _), Finset.mem_sort, shownLocation_eq_iff]

theorem foldl_clear (ns : List Nat) (s : Finset Nat) :
    (ns.map fun n => BreakpointEdit.clear (shownAddress n)).foldl (fun s e => e.apply s) s =
      s \ (ns.map (· % 2 ^ 16)).toFinset := by
  rw [← foldl_erase, List.foldl_map, List.foldl_map]
  rfl

/-- Without the lower bits of its own numbers, a set has just those with further bits. -/
theorem sdiff_lower (s : Finset Nat) :
    s \ (s.sort.map (· % 2 ^ 16)).toFinset = s.filter (2 ^ 16 ≤ ·) := by
  ext k
  simp only [Finset.mem_sdiff, List.mem_toFinset, List.mem_map, Finset.mem_sort,
    Finset.mem_filter, and_congr_right_iff]
  intro hk
  constructor
  · intro hmem
    by_contra hlow
    exact hmem ⟨k, hk, Nat.mod_eq_of_lt (by omega)⟩
  · rintro hhigh ⟨n, -, hn⟩
    omega

/-- After any commands that set and clear breakpoints, the list has one line for each breakpoint.
Two lines are the same just if the lower sixteen bits of the locations are, and clearing every line
leaves the breakpoints that have further bits. So there must not be any further bits for the lines
to be told apart and to clear all the breakpoints. -/
theorem breakpoint_list_shows_lower_bits (h : mon.BreaksAt m i s) (edits : List BreakpointEdit) :
    let edited := mon.evalEach m (edits.map (·.line))
    let kept := edits.foldl (fun s e => e.apply s) s
    let lines := kept.sort.map shownLocation
    let listed := edited.1.eval edited.2 (Text.line ["b"])
    let cleared := listed.1.evalEach listed.2.1
      (lines.map fun line => Text.line ["b", "clear", line])
    edited.1.BreaksAt edited.2 i kept ∧ listed.1.out = (edited.1.out.writeLines lines).1 ∧
      (listed.2.2 = .ok () ↔ (edited.1.out.writeLines lines).2 = true) ∧
      lines.length = kept.card ∧
      (lines.Nodup ↔ ∀ n ∈ kept, ∀ k ∈ kept, n % 2 ^ 16 = k % 2 ^ 16 → n = k) ∧
      cleared.1.BreaksAt cleared.2 i (kept.filter (2 ^ 16 ≤ ·)) ∧
      (lines.Nodup ∧ (cleared.2.watch i).breakpoints = [] ↔ ∀ n ∈ kept, n < 2 ^ 16) := by
  intro edited kept lines listed cleared
  have hedited : edited.1.BreaksAt edited.2 i kept := h.evalEach edits
  have hlisted : listed = _ := hedited.list
  have hkept : listed.1.BreaksAt listed.2.1 i kept := by
    rw [hlisted]
    exact hedited.heard { edited.1.forget with out := _ } rfl _
  -- A line of the list clears the location that its digits stand for, without the upper bits.
  have hclears : lines.map (fun line => Text.line ["b", "clear", line]) =
      (kept.sort.map fun n => BreakpointEdit.clear (shownAddress n)).map (·.line) := by
    simp only [lines, List.map_map]
    rfl
  have hcleared : cleared.1.BreaksAt cleared.2 i (kept.filter (2 ^ 16 ≤ ·)) := by
    have hrun := hkept.evalEach (kept.sort.map fun n => BreakpointEdit.clear (shownAddress n))
    rwa [foldl_clear, sdiff_lower, ← hclears] at hrun
  have hnone : (cleared.2.watch i).breakpoints = [] ↔ ∀ n ∈ kept, n < 2 ^ 16 := by
    rw [hcleared.breakpoints, List.eq_nil_iff_forall_not_mem]
    simp only [Finset.mem_sort, Finset.mem_filter, not_and, Nat.not_le]
  refine ⟨hedited, ?_, ?_, ?_, nodup_shownLocation kept, hcleared, ?_⟩
  · rw [hlisted]
  · rw [hlisted]
    cases (edited.1.out.writeLines lines).2 <;> simp
  · rw [List.length_map, Finset.length_sort]
  · rw [hnone]
    refine ⟨And.right, fun hlow => ⟨(nodup_shownLocation kept).mpr fun n hn k hk hmod => ?_, hlow⟩⟩
    rwa [Nat.mod_eq_of_lt (hlow n hn), Nat.mod_eq_of_lt (hlow k hk)] at hmod

theorem breakpoint_list_shows_lower_bits_of_bank :
    let mon : Monitor := { cursors := #[{}], encoding := "ascii" }
    let edits : List BreakpointEdit := [.set ⟨"10400", 0x10400, rfl⟩, .add ⟨"$200", 0x200, rfl⟩]
    let edited := mon.evalEach single (edits.map (·.line))
    let listed := edited.1.eval edited.2 (Text.line ["b"])
    let cleared := listed.1.evalEach listed.2.1
      (["$0200", "$0400"].map fun line => Text.line ["b", "clear", line])
    mon.BreaksAt single 0 ∅ ∧ edited.1.BreaksAt edited.2 0 {0x200, 0x10400} ∧
      cleared.1.BreaksAt cleared.2 0 {0x10400} := by
  intro mon edits edited listed cleared
  have hfresh : mon.BreaksAt single 0 ∅ := ⟨rfl, rfl, by decide, (Finset.sort_empty _).symm⟩
  obtain ⟨hedited, -, -, -, -, hcleared, -⟩ := breakpoint_list_shows_lower_bits hfresh edits
  have hkept : edits.foldl (fun s e => e.apply s) ∅ = {0x200, 0x10400} := rfl
  have hsort : Finset.sort {0x200, 0x10400} = [0x200, 0x10400] :=
    hedited.breakpoints.symm.trans rfl
  have hlines : [0x200, 0x10400].map shownLocation = ["$0200", "$0400"] := rfl
  have hhigh : ({0x200, 0x10400} : Finset Nat).filter (2 ^ 16 ≤ ·) = {0x10400} := by decide
  rw [hkept, hsort, hlines, hhigh] at hcleared
  exact ⟨hfresh, hedited, hcleared⟩

/-- A breakpoint in another bank is listed with the line of one in the first, and clearing that
line, as often as it stands in the list, leaves the breakpoint where it is. -/
theorem breakpoint_list_repeats_lower_bits :
    let mon : Monitor := { cursors := #[{}], encoding := "ascii" }
    let edited := mon.evalEach single ["b set 10400", "b set 400"]
    let listed := edited.1.eval edited.2 "b"
    let cleared := listed.1.evalEach listed.2.1 ["b clear $0400", "b clear $0400"]
    edited.2.breakpoints "cpu" = .ok [0x400, 0x10400] ∧ listed.2.2 = .ok () ∧
      listed.1.out.bytes.toList = "$0400\n$0400\n".toByteArray.data.toList ∧
      cleared.2.breakpoints "cpu" = .ok [0x10400] :=
  ⟨rfl, rfl, rfl, rfl⟩

end Monitor

end EightBit
