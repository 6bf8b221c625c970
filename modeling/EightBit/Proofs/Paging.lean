import EightBit.Proofs.Breakpoints
import EightBit.Proofs.Dumps
import EightBit.Proofs.Lines
import EightBit.Proofs.Tiling

/-!
Paging through listings and dumps.

An empty line goes on with the last listing or dump where it ended. Page by page it prints what a
single listing of all the lines, or a dump of all the addresses, would print. A processor keeps its
place while the commands are about another one.
-/

namespace EightBit

namespace Sink

variable {s : Sink}

def Full (s : Sink) : Prop := ∃ limit, s.limit = some limit ∧ limit ≤ s.bytes.size

theorem write_of_full (h : s.Full) (bytes : List UInt8) : (s.write bytes).1 = s := by
  obtain ⟨limit, hlimit, hle⟩ := h
  have hroom : s.room bytes.length = 0 := by
    simp only [room, hlimit]
    omega
  simp [write, hroom]

theorem full_of_write {bytes : List UInt8} (h : (s.write bytes).2 = false) :
    (s.write bytes).1.Full := by
  have hroom : s.room bytes.length ≠ bytes.length := by simpa [write] using h
  have hsize : (s.write bytes).1.bytes.size = s.bytes.size + s.room bytes.length := by
    have hle : s.room bytes.length ≤ bytes.length := by
      unfold room
      split <;> omega
    simp only [write]
    rw [← Array.length_toList, Array.toList_appendList, List.length_append, Array.length_toList,
      List.length_take, Nat.min_eq_left hle]
  cases hlimit : s.limit with
  | none =>
    rw [room, hlimit] at hroom
    exact absurd rfl hroom
  | some limit =>
    refine ⟨limit, hlimit, ?_⟩
    rw [hsize]
    simp only [room, hlimit] at hroom ⊢
    omega

theorem writeLines_cons (s : Sink) (line : String) (lines : List String) :
    s.writeLines (line :: lines) =
      if (s.writeText (line ++ "\n")).2 then (s.writeText (line ++ "\n")).1.writeLines lines
      else ((s.writeText (line ++ "\n")).1, false) := by
  rw [writeLines]
  rcases s.writeText (line ++ "\n") with ⟨s', _ | _⟩
  · rfl
  · rfl

/-- A sink that has no room takes nothing more. -/
theorem writeLines_of_full (h : s.Full) (lines : List String) : (s.writeLines lines).1 = s := by
  induction lines with
  | nil => rfl
  | cons line lines ih =>
    have hsame : (s.writeText (line ++ "\n")).1 = s := write_of_full h _
    rw [writeLines_cons, hsame]
    split
    · exact ih
    · rfl

theorem full_of_writeLines {lines : List String} (h : (s.writeLines lines).2 = false) :
    (s.writeLines lines).1.Full := by
  induction lines generalizing s with
  | nil => cases h
  | cons line lines ih =>
    rw [writeLines_cons] at h ⊢
    split at h
    · next hwrite =>
      rw [if_pos hwrite]
      exact ih h
    · next hwrite =>
      rw [if_neg hwrite]
      exact full_of_write (Bool.eq_false_iff.mpr hwrite)

/-- Lines may be written at once or part by part, even where they do not fit. -/
theorem writeLines_append (s : Sink) (xs ys : List String) :
    (s.writeLines (xs ++ ys)).1 = ((s.writeLines xs).1.writeLines ys).1 := by
  induction xs generalizing s with
  | nil => rfl
  | cons x xs ih =>
    rw [List.cons_append, writeLines_cons, writeLines_cons]
    split
    · exact ih _
    · next hwrite =>
      have hfull : (s.writeText (x ++ "\n")).1.Full := full_of_write (Bool.eq_false_iff.mpr hwrite)
      exact (writeLines_of_full hfull ys).symm

end Sink

/-- What is paged through: statements, so many to a page, or rows of bytes. -/
inductive Book where
  | listing (lister : Lister) (lines : Nat)
  | dump (set : CharacterSet) (size rows : Nat)

namespace Book

def again : Book → Repeated
  | listing _ _ => .listing
  | dump _ _ _ => .dump

def command : Book → String
  | listing _ _ => "d"
  | dump _ _ _ => "m"

def page (code : Code) : Book → Nat → List String × Nat
  | listing lister lines, a =>
    ((Listing.lines lister code lines a).1.map (·.line), (Listing.lines lister code lines a).2)
  | dump set size rows, a =>
    let last := Dump.clamp size (a + (rows * Dump.width - 1))
    (Dump.rows code size set a last, last + 1)

/-- The lines of so many pages from an address on. -/
def pages (book : Book) (code : Code) : Nat → Nat → List String
  | 0, _ => []
  | k + 1, a => (book.page code a).1 ++ book.pages code k (book.page code a).2

end Book

theorem Listing.lines_add (lister : Lister) (code : Code) (n k pc : Nat) :
    lines lister code (n + k) pc =
      ((lines lister code n pc).1 ++ (lines lister code k (lines lister code n pc).2).1,
        (lines lister code k (lines lister code n pc).2).2) := by
  induction n generalizing pc with
  | zero =>
    rw [Nat.zero_add]
    rfl
  | succ n ih =>
    rw [Nat.succ_add]
    simp only [lines, ih, List.cons_append]

/-- The statements of some pages are those of a single listing. -/
theorem Book.pages_listing (lister : Lister) (code : Code) (n k a : Nat) :
    (listing lister n).pages code k a = (Listing.lines lister code (k * n) a).1.map (·.line) := by
  induction k generalizing a with
  | zero =>
    rw [Nat.zero_mul]
    rfl
  | succ k ih =>
    have hlines : (k + 1) * n = n + k * n := by rw [Nat.succ_mul, Nat.add_comm]
    rw [hlines, Listing.lines_add, List.map_append, pages, ih]
    rfl

section Dumps

variable (code : Code) (set : CharacterSet) {size n a : Nat}

def pageStart (size n a j : Nat) : Nat := min (a + 16 * n * j) size

def dumpPage (size n a j : Nat) : List String :=
  Dump.rows code size set (pageStart size n a j) (pageStart size n a (j + 1) - 1)

theorem pageStart_succ (j : Nat) :
    pageStart size n a (j + 1) = pageStart size n (pageStart size n a 1) j := by
  simp only [pageStart, Nat.mul_add, Nat.mul_one]
  omega

theorem pageStart_le (size n a j : Nat) : pageStart size n a j ≤ pageStart size n a (j + 1) := by
  simp only [pageStart, Nat.mul_add, Nat.mul_one]
  omega

/-- A page ends where the next one starts or, in the last one, with the memory. -/
theorem Book.page_dump (hn : 0 < n) (hsize : 0 < size) (ha : a ≤ size) :
    (dump set size n).page code a = (dumpPage code set size n a 0, pageStart size n a 1) := by
  have hstart : pageStart size n a 0 = a := by simp [pageStart, ha]
  have hlast : Dump.clamp size (a + (n * Dump.width - 1)) = pageStart size n a 1 - 1 := by
    simp only [Dump.clamp, Dump.width, pageStart]
    omega
  have hnext : pageStart size n a 1 - 1 + 1 = pageStart size n a 1 := by
    simp only [pageStart]
    omega
  simp only [page, dumpPage, hstart, hlast, hnext]

theorem Book.pages_dump (hn : 0 < n) (hsize : 0 < size) (ha : a ≤ size) (k : Nat) :
    (dump set size n).pages code k a = (List.range k).flatMap (dumpPage code set size n a) := by
  induction k generalizing a with
  | zero => rfl
  | succ k ih =>
    have hnext : pageStart size n a 1 ≤ size := Nat.min_le_right _ _
    have hpages : dumpPage code set size n (pageStart size n a 1) =
        dumpPage code set size n a ∘ Nat.succ := by
      funext j
      simp only [dumpPage, Function.comp_apply, ← pageStart_succ]
    rw [pages, page_dump code set hn hsize ha, ih hnext, hpages, List.range_succ_eq_map,
      List.flatMap_cons, List.flatMap_map]
    rfl

/-- The addresses of all pages follow each other without gap or overlap. -/
theorem flatMap_pageStart (ha : a ≤ size) (k : Nat) :
    ((List.range k).flatMap fun j =>
      List.range' (pageStart size n a j) (pageStart size n a (j + 1) - pageStart size n a j)) =
        List.range' a (pageStart size n a k - a) := by
  induction k with
  | zero => simp [pageStart, ha]
  | succ k ih =>
    have hle := pageStart_le size n a k
    have hk : a ≤ pageStart size n a k := by
      simp only [pageStart]
      omega
    have hjoin := List.range'_append_1 (s := a) (m := pageStart size n a k - a)
      (n := pageStart size n a (k + 1) - pageStart size n a k)
    have hstart : a + (pageStart size n a k - a) = pageStart size n a k := by omega
    have hcount : pageStart size n a k - a +
        (pageStart size n a (k + 1) - pageStart size n a k) = pageStart size n a (k + 1) - a := by
      omega
    rw [hstart, hcount] at hjoin
    rw [List.range_succ, List.flatMap_append, ih, List.flatMap_singleton]
    exact hjoin

theorem dumpPage_eq_nil (hsize : 0 < size) {j : Nat} (h : pageStart size n a j = size) :
    dumpPage code set size n a j = [] := by
  apply Dump.rows_eq_nil
  simp only [Dump.clamp]
  omega

/-- A page has the digits of its addresses. -/
theorem flatMap_dumpPage (hn : 0 < n) (hsize : 0 < size) (j : Nat) :
    (dumpPage code set size n a j).flatMap Dump.hexDigits =
      (List.range' (pageStart size n a j)
        (pageStart size n a (j + 1) - pageStart size n a j)).flatMap fun a =>
          Dump.pair (code a) := by
  have hle : pageStart size n a j ≤ size := Nat.min_le_right _ _
  have hnext : pageStart size n a (j + 1) ≤ size := Nat.min_le_right _ _
  by_cases hend : pageStart size n a j = size
  · -- Behind the end of memory there are neither rows nor addresses.
    have hnone : pageStart size n a (j + 1) - pageStart size n a j = 0 := by omega
    rw [dumpPage_eq_nil code set hsize hend, hnone]
    rfl
  · have hlt : pageStart size n a j < pageStart size n a (j + 1) := by
      simp only [pageStart, Nat.mul_add, Nat.mul_one] at hend ⊢
      omega
    have hclamp : Dump.clamp size (pageStart size n a (j + 1) - 1) =
        pageStart size n a (j + 1) - 1 := by
      simp only [Dump.clamp]
      omega
    have hlast : pageStart size n a j ≤ Dump.clamp size (pageStart size n a (j + 1) - 1) := by
      omega
    have hcount : pageStart size n a (j + 1) - 1 - pageStart size n a j + 1 =
        pageStart size n a (j + 1) - pageStart size n a j := by
      omega
    rw [dumpPage, Dump.flatMap_hexDigits code size set hlast, hclamp, hcount]

theorem flatMap_dumpPages (hn : 0 < n) (hsize : 0 < size) (ha : a ≤ size) (k : Nat) :
    ((List.range k).flatMap (dumpPage code set size n a)).flatMap Dump.hexDigits =
      (List.range' a (pageStart size n a k - a)).flatMap fun a => Dump.pair (code a) := by
  rw [← flatMap_pageStart ha, List.flatMap_assoc, List.flatMap_assoc]
  apply List.flatMap_congr
  intro j _
  exact flatMap_dumpPage code set hn hsize j

end Dumps

theorem Core.faithful_of_lister? {c : Core} {lister : Lister} (h : c.lister? = some lister) :
    lister.Faithful := by
  cases c with
  | mos6502 s => exact Option.some.inj h ▸ Mos6502.faithful_lister
  | z80 s => exact Option.some.inj h ▸ Z80.faithful_lister
  | counter s => contradiction

namespace Monitor

/-- The selected processor has a cursor, and no page is empty. -/
structure Ready (mon : Monitor) : Prop where
  core : mon.core < mon.cursors.size
  listingLines : 0 < mon.listingLines
  dumpRows : 0 < mon.dumpRows

/-- Some lines, each on the machine as it is by then. -/
def evalOn (mon : Monitor) : List (Machine × String) → Monitor
  | [] => mon
  | (m, line) :: rest => (mon.eval m line).1.evalOn rest

/-- The lines pass over the processor `i`: each of them selects a processor or is about another
one. -/
def PassesOver (i : Nat) (mon : Monitor) : List (Machine × String) → Prop
  | [] => True
  | (m, line) :: rest =>
    (mon.core ≠ i ∨ ∃ args, Text.words line = "core" :: args) ∧
      (mon.eval m line).1.PassesOver i rest

section Lines

variable {mon mon' : Monitor} {m : Machine} {i : Nat}

/-- A new monitor is ready if there is a processor at all. -/
theorem ready_ofMachine {out : Sink} (h : ofMachine m out = .ok mon)
    (hprocessors : 0 < m.system.processors.size) : mon.Ready := by
  obtain ⟨m', hm, rfl⟩ := map_ok h
  rw [sound_ok hm]
  exact ⟨by simpa using hprocessors, Nat.zero_lt_succ 15, Nat.zero_lt_succ 15⟩

theorem Turns.ready {names : List String} (h : mon.Turns names mon') (hmon : mon.Ready) :
    mon'.Ready := by
  obtain ⟨hcore, hlines, hrows⟩ := hmon
  cases h with
  | kept => exact ⟨hcore, hlines, hrows⟩
  | selected hi => exact ⟨hi, hlines, hrows⟩
  | moved f again => exact ⟨by simpa [moveCursor] using hcore, hlines, hrows⟩
  | listingLines hn => exact ⟨hcore, hn.1, hrows⟩
  | dumpRows hn => exact ⟨hcore, hlines, hn.1⟩
  | encoding hname => exact ⟨hcore, hlines, hrows⟩
  | quit => exact ⟨hcore, hlines, hrows⟩

/-- Only the cursors of the selected processor move. -/
theorem Turns.cursors {names : List String} (h : mon.Turns names mon') (hi : mon.core ≠ i) :
    mon'.cursors[i]? = mon.cursors[i]? := by
  cases h with
  | moved f again =>
    simp only [moveCursor]
    rw [Array.getElem?_modify, if_neg hi]
  | kept => rfl
  | selected hi => rfl
  | listingLines hn => rfl
  | dumpRows hn => rfl
  | encoding hname => rfl
  | quit => rfl

theorem Ready.eval (h : mon.Ready) (m : Machine) (line : String) : (mon.eval m line).1.Ready := by
  have hout : ∀ (mon' : Monitor) (_ : Machine) (out : Sink), mon'.Ready →
      { mon' with out }.Ready :=
    fun _ _ _ h => ⟨h.core, h.listingLines, h.dumpRows⟩
  cases hwords : Text.words line with
  | nil =>
    rw [eval_of_words_nil mon m hwords]
    exact settle_keeps hout h fun r hr => (respondAgain_answers hr).turns.ready h
  | cons command args =>
    have hforget : mon.forget.Ready := ⟨h.core, h.listingLines, h.dumpRows⟩
    rw [eval_of_words_cons mon m hwords]
    exact settle_keeps hout hforget fun r hr => (respond_answers hr).turns.ready hforget

/-- Monitors stay ready, whatever they are told. -/
theorem Ready.evalOn (h : mon.Ready) (lines : List (Machine × String)) :
    (mon.evalOn lines).Ready := by
  induction lines generalizing mon with
  | nil => exact h
  | cons x lines ih => exact ih (h.eval x.1 x.2)

theorem selectCore_cursors {args : List String} {r : Reply} (h : mon.selectCore m args = .ok r) :
    r.monitor.cursors = mon.cursors := by
  obtain ⟨-, -, h⟩ := bind_ok h
  split at h
  · obtain ⟨name, -, h⟩ := bind_ok h
    cases h
    rfl
  · obtain ⟨n, -, h⟩ := bind_ok h
    split at h
    · cases h
    · cases h
      rfl

/-- A line moves no cursor but that of the selected processor, and selecting one moves none. -/
theorem cursors_eval {line : String} (h : mon.core ≠ i ∨ ∃ args, Text.words line = "core" :: args) :
    (mon.eval m line).1.cursors[i]? = mon.cursors[i]? := by
  have hsettle {mon₀ : Monitor} (hmon₀ : mon₀.cursors = mon.cursors) {m : Machine}
      {reply : Except MonitorError Reply}
      (hreply : ∀ r, reply = .ok r → r.monitor.cursors[i]? = mon.cursors[i]?) :
      (mon₀.settle m reply).1.cursors[i]? = mon.cursors[i]? :=
    settle_keeps (P := fun mon' _ => mon'.cursors[i]? = mon.cursors[i]?) (fun _ _ _ h => h)
      (by rw [hmon₀]) hreply
  cases hwords : Text.words line with
  | nil =>
    have hi : mon.core ≠ i := by simpa [hwords] using h
    rw [eval_of_words_nil mon m hwords]
    exact hsettle rfl fun r hr => (respondAgain_answers hr).turns.cursors hi
  | cons command args =>
    have hforget : mon.forget.cursors = mon.cursors ∧ mon.forget.core = mon.core := ⟨rfl, rfl⟩
    rw [eval_of_words_cons mon m hwords]
    apply hsettle hforget.1
    intro r hr
    rcases h with hi | ⟨args', hcore⟩
    · rw [← hforget.2] at hi
      rw [(respond_answers hr).turns.cursors hi, hforget.1]
    · rw [hwords] at hcore
      cases hcore
      have hanswer : mon.forget.selectCore (noted m line) args = .ok r := hr
      rw [selectCore_cursors hanswer, hforget.1]

/-- A processor that is passed over keeps its place. -/
theorem cursors_evalOn {lines : List (Machine × String)} (h : mon.PassesOver i lines) :
    (mon.evalOn lines).cursors[i]? = mon.cursors[i]? := by
  induction lines generalizing mon with
  | nil => rfl
  | cons x lines ih =>
    obtain ⟨hline, hlines⟩ := h
    rw [evalOn, ih hlines, cursors_eval hline]

end Lines

/-- The selected processor sees this code, which is listed so. -/
structure Lists (mon : Monitor) (code : Code) (lister : Lister) (m : Machine) : Prop where
  sound : m.poisoned = false
  core : ∃ c, m.system.core? mon.core = some c ∧ c.code = code ∧ c.lister? = some lister

/-- The selected processor sees this code in a memory of `size` bytes, which the selected
character set shows. -/
structure Dumps (mon : Monitor) (code : Code) (size : Nat) (set : CharacterSet) (m : Machine) :
    Prop where
  sound : m.poisoned = false
  core : ∃ c, m.system.core? mon.core = some c ∧ c.code = code ∧ c.mem.size = size
  encoding : m.system.catalog.find? mon.encoding = some set

theorem Lists.tiles {mon : Monitor} {code : Code} {lister : Lister} {m : Machine}
    (h : mon.Lists code lister m) {c : Core} (hc : m.system.core? mon.core = some c) {n : Nat}
    (hn : 0 < n) (start : Nat) :
    ∃ last, Listing.Tiles lister c.mem c.latches start last
      (Listing.lines lister code n start) := by
  obtain ⟨c', hc', rfl, hlister⟩ := h.core
  obtain rfl : c = c' := Option.some.inj (hc.symm.trans hc')
  have hfaithful := Core.faithful_of_lister? hlister
  obtain ⟨k, rfl⟩ := Nat.exists_eq_succ_of_ne_zero hn.ne'
  obtain ⟨last, -, hreads⟩ := Listing.reads_lines hfaithful c.code k start
  exact ⟨last, hreads.tiles hfaithful⟩

def Shows (mon : Monitor) (code : Code) (m : Machine) : Book → Prop
  | .listing lister lines => mon.listingLines = lines ∧ mon.Lists code lister m
  | .dump set size rows => mon.dumpRows = rows ∧ mon.Dumps code size set m

def place (mon : Monitor) : Book → Option Nat
  | .listing _ _ => mon.cursor.listing
  | .dump _ _ _ => mon.cursor.dump

/-- The cursor with the next page at `next`. -/
def mark (next : Nat) (k : Cursor) : Book → Cursor
  | .listing _ _ => { k with listing := some next }
  | .dump _ _ _ => { k with dump := some next }

/-- The monitor once a page has been shown and the next one starts at `next`. -/
def turn (mon : Monitor) (book : Book) (next : Nat) : Monitor :=
  { mon.moveCursor fun k => mark next k book with last := some book.again }

def ask (mon : Monitor) (m : Machine) (args : List String) : Book → Except MonitorError Reply
  | .listing _ _ => mon.list m args
  | .dump _ _ _ => mon.dump m args

section Paging

variable {mon : Monitor} {m : Machine} {code : Code} {book : Book} {a : Nat}

theorem cursor_moveCursor (h : mon.core < mon.cursors.size) (f : Cursor → Cursor) :
    (mon.moveCursor f).cursor = f mon.cursor := by
  have hold : mon.cursors[mon.core]? = some mon.cursors[mon.core] := Array.getElem?_eq_getElem h
  simp only [cursor, moveCursor, Array.getD_eq_getD_getElem?, Array.getElem?_modify, hold,
    ↓reduceIte, Option.map_some, Option.getD_some]

def AsksFor (mon : Monitor) (book : Book) (args : List String) (a : Nat) : Prop :=
  args.length ≤ 1 ∧ ∃ first, optional address args[0]? = .ok first ∧
    first.or (mon.place book) = some a

theorem asksFor_next (h : mon.place book = some a) : mon.AsksFor book [] a :=
  ⟨by decide, none, rfl, h⟩

theorem asksFor_address (a : Address) : mon.AsksFor book [a.text] a.location :=
  ⟨Nat.le_refl 1, some a.location, map_of_ok (mapError_of_ok a.reads _) _, rfl⟩

/-- A page is shown, and the cursor moves to the next one. -/
theorem ask_page (h : mon.Shows code m book) {args : List String} (ha : mon.AsksFor book args a) :
    mon.ask m args book =
      .ok ⟨(book.page code a).1, mon.turn book (book.page code a).2, m⟩ := by
  obtain ⟨hlength, first, hfirst, hplace⟩ := ha
  have hcount : checkCount args 0 2 = .ok () := by
    rw [checkCount, if_neg (Nat.not_lt_zero _), if_neg (by omega)]
  have hlast : optional address args[1]? = .ok none := by
    rw [List.getElem?_eq_none hlength]
    rfl
  cases book with
  | listing lister lines =>
    obtain ⟨rfl, hsound, c, hc, rfl, hlister⟩ := h
    have hfirst' : first.or mon.cursor.listing = some a := hplace
    have hfrom : (first.or mon.cursor.listing).getD c.pc = a := by
      rw [hfirst', Option.getD_some]
    simp only [ask, list, hcount, hfirst, hlast, selected_of_core? hsound hc, ok_bind, hlister,
      hfrom]
    rfl
  | dump set size rows =>
    obtain ⟨rfl, hsound, ⟨c, hc, rfl, rfl⟩, hset⟩ := h
    have hfirst' : first.or mon.cursor.dump = some a := hplace
    have hfrom : (first.or mon.cursor.dump).getD c.pc = a := by
      rw [hfirst', Option.getD_some]
    simp only [ask, dump, hcount, hfirst, hlast, sound_of_not_poisoned hsound,
      selected_of_core? hsound hc, ok_bind, hset, hfrom, Option.getD_none]
    rfl

theorem respond_page (h : mon.Shows code m book) {args : List String}
    (ha : mon.AsksFor book args a) :
    mon.respond m book.command args =
      .ok ⟨(book.page code a).1, mon.turn book (book.page code a).2, m⟩ := by
  rw [← ask_page h ha]
  cases book with
  | listing lister lines => rfl
  | dump set size rows => rfl

theorem respondAgain_page (h : mon.Shows code m book) (hlast : mon.last = some book.again)
    (ha : mon.place book = some a) :
    mon.respondAgain m =
      .ok ⟨(book.page code a).1, mon.turn book (book.page code a).2, m⟩ := by
  rw [← ask_page h (asksFor_next ha), respondAgain, hlast]
  cases book with
  | listing lister lines => rfl
  | dump set size rows => rfl

/-- What is shown depends on the selections and on the system, and on nothing else. -/
theorem Shows.congr {mon' : Monitor} {m' : Machine} (h : mon.Shows code m book)
    (hcore : mon'.core = mon.core) (hencoding : mon'.encoding = mon.encoding)
    (hlines : mon'.listingLines = mon.listingLines) (hrows : mon'.dumpRows = mon.dumpRows)
    (hsystem : m'.system = m.system) (hpoisoned : m'.poisoned = m.poisoned) :
    mon'.Shows code m' book := by
  cases book with
  | listing lister lines =>
    obtain ⟨hcount, hsound, hprocessor⟩ := h
    refine ⟨hlines.trans hcount, hpoisoned.trans hsound, ?_⟩
    rwa [hsystem, hcore]
  | dump set size rows =>
    obtain ⟨hcount, hsound, hprocessor, hset⟩ := h
    refine ⟨hrows.trans hcount, hpoisoned.trans hsound, ?_, ?_⟩
    · rwa [hsystem, hcore]
    · rwa [hsystem, hencoding]

theorem core_lt_turn (h : mon.core < mon.cursors.size) (next : Nat) (out : Sink) :
    { mon.turn book next with out }.core < { mon.turn book next with out }.cursors.size := by
  simpa [turn, moveCursor] using h

theorem place_turn (h : mon.core < mon.cursors.size) (next : Nat) (out : Sink) :
    { mon.turn book next with out }.place book = some next := by
  have hcursor := cursor_moveCursor h fun k => mark next k book
  cases book with
  | listing lister lines => exact congrArg Cursor.listing hcursor
  | dump set size rows => exact congrArg Cursor.dump hcursor

/-- Once the output is full, no line prints anything. -/
theorem out_evalOn_of_full (h : mon.out.Full) (lines : List (Machine × String)) :
    (mon.evalOn lines).out = mon.out := by
  have hsettle (mon : Monitor) (m : Machine) (reply : Except MonitorError Reply)
      (h : mon.out.Full) : (mon.settle m reply).1.out = mon.out := by
    cases reply with
    | error e => rfl
    | ok r => rw [out_settle, Sink.writeLines_of_full h]
  induction lines generalizing mon with
  | nil => rfl
  | cons x lines ih =>
    have hline : (mon.eval x.1 x.2).1.out = mon.out := by
      cases hwords : Text.words x.2 with
      | nil =>
        rw [eval_of_words_nil mon x.1 hwords]
        exact hsettle mon _ _ h
      | cons command args =>
        rw [eval_of_words_cons mon x.1 hwords]
        exact hsettle mon.forget _ _ h
    rw [evalOn, ih (hline.symm ▸ h), hline]

/-- What is still to be printed follows what has been, unless the output is full by then. -/
theorem out_evalOn_settle (mon mon' : Monitor) (m m' : Machine) (page tail : List String)
    {rest : List (Machine × String)}
    (h : ∀ out, ({ mon' with out }.evalOn rest).out = (out.writeLines tail).1) :
    ((mon.settle m (.ok ⟨page, mon', m'⟩)).1.evalOn rest).out =
      (mon.out.writeLines (page ++ tail)).1 := by
  rw [settle_ok, Sink.writeLines_append]
  split
  · exact h _
  · next hfits =>
    -- The page is not taken over, so the next line asks for it again, but in vain.
    have hfull := Sink.full_of_writeLines (Bool.eq_false_iff.mpr hfits)
    rw [Sink.writeLines_of_full hfull, out_evalOn_of_full hfull]

/-- Every empty line shows one page more. -/
theorem out_evalOn_pages (hcore : mon.core < mon.cursors.size) (hlast : mon.last = some book.again)
    (ha : mon.place book = some a) {rest : List (Machine × String)}
    (hrest : ∀ x ∈ rest, Text.words x.2 = [] ∧ mon.Shows code x.1 book) :
    (mon.evalOn rest).out = (mon.out.writeLines (book.pages code rest.length a)).1 := by
  induction rest generalizing mon a with
  | nil => rfl
  | cons x rest ih =>
    obtain ⟨⟨hwords, hshows⟩, hrest⟩ := List.forall_mem_cons.mp hrest
    rw [evalOn, eval_of_words_nil mon x.1 hwords, respondAgain_page hshows hlast ha]
    apply out_evalOn_settle
    intro out
    apply ih
    · exact core_lt_turn hcore _ out
    · rfl
    · exact place_turn hcore _ out
    · intro y hy
      exact ⟨(hrest y hy).1, (hrest y hy).2.congr rfl rfl rfl rfl rfl rfl⟩

/-- A command for the page at an address and some empty lines show as many pages from there. -/
theorem out_evalOn_command (book : Book) (hcore : mon.core < mon.cursors.size) {line : String}
    {address : Address} (hline : Text.words line = [book.command, address.text])
    (hm : mon.Shows code m book) {rest : List (Machine × String)}
    (hrest : ∀ x ∈ rest, Text.words x.2 = [] ∧ mon.Shows code x.1 book) :
    (mon.evalOn ((m, line) :: rest)).out =
      (mon.out.writeLines (book.pages code (rest.length + 1) address.location)).1 := by
  have hnoted : mon.forget.Shows code (noted m line) book := hm.congr rfl rfl rfl rfl rfl rfl
  have hforgotten : mon.forget.core < mon.forget.cursors.size := hcore
  rw [evalOn, eval_of_words_cons mon m hline, respond_page hnoted (asksFor_address address)]
  apply out_evalOn_settle
  intro out
  apply out_evalOn_pages
  · exact core_lt_turn hforgotten _ out
  · rfl
  · exact place_turn hforgotten _ out
  · intro y hy
    exact ⟨(hrest y hy).1, (hrest y hy).2.congr rfl rfl rfl rfl rfl rfl⟩

end Paging

/-- Empty lines go on where the last listing or dump ended. A listing prints the statements that a
single listing of all its lines prints, which are that many and tile memory from where it starts. A
dump prints the rows of consecutive ranges, each address
from the first to the end of the last range once and in order, and nothing once the memory has
ended. The cursors of a processor do not move while others are selected. -/
theorem empty_lines_turn_pages (mon : Monitor) (hready : mon.Ready) (m : Machine) (line : String)
    (rest : List (Machine × String)) (hrest : ∀ x ∈ rest, Text.words x.2 = []) (a : Address)
    (code : Code) :
    let out := (mon.evalOn ((m, line) :: rest)).out
    let machines := m :: rest.map Prod.fst
    let pages := rest.length + 1
    (∀ lister, Text.words line = ["d", a.text] → (∀ m' ∈ machines, mon.Lists code lister m') →
      let whole := { mon with listingLines := pages * mon.listingLines }
      let listed := Listing.lines lister code (pages * mon.listingLines) a.location
      out = (mon.out.writeLines (listed.1.map (·.line))).1 ∧
        out = (whole.eval m line).1.out ∧
        listed.1.length = pages * mon.listingLines ∧
        ∀ c, m.system.core? mon.core = some c →
          ∃ last, Listing.Tiles lister c.mem c.latches a.location last listed) ∧
      (∀ set size, Text.words line = ["m", a.text] → (∀ m' ∈ machines, mon.Dumps code size set m') →
        a.location < size →
        let start := fun j => min (a.location + 16 * mon.dumpRows * j) size
        let rows := fun j => Dump.rows code size set (start j) (start (j + 1) - 1)
        out = (mon.out.writeLines ((List.range pages).flatMap rows)).1 ∧
          ((List.range pages).flatMap fun j => List.range' (start j) (start (j + 1) - start j)) =
            List.range' a.location (start pages - a.location) ∧
          ((List.range pages).flatMap rows).flatMap Dump.hexDigits =
            (List.range' a.location (start pages - a.location)).flatMap
              (fun addr => Dump.pair (code addr)) ∧
          ∀ j, start j = size → rows j = []) ∧
      ∀ i lines, mon.PassesOver i lines → (mon.evalOn lines).cursors[i]? = mon.cursors[i]? := by
  intro out machines pages
  refine ⟨?_, ?_, ?_⟩
  · intro lister hline hmachines whole listed
    obtain ⟨hm, hothers⟩ := List.forall_mem_cons.mp hmachines
    have hcore : whole.core < whole.cursors.size := hready.core
    have hpages : out = _ :=
      out_evalOn_command (.listing lister mon.listingLines) hready.core hline ⟨rfl, hm⟩
        fun x hx => ⟨hrest x hx, rfl, hothers x.1 (List.mem_map_of_mem hx)⟩
    have hwhole : (whole.eval m line).1.out = _ :=
      out_evalOn_command (.listing lister (pages * mon.listingLines)) hcore hline
        ⟨rfl, hm.sound, hm.core⟩ (List.forall_mem_nil _)
    rw [Book.pages_listing] at hpages hwhole
    rw [List.length_nil, Nat.zero_add, Nat.one_mul] at hwhole
    refine ⟨hpages, hpages.trans hwhole.symm, Listing.length_lines _ _ _ _, ?_⟩
    intro c hc
    exact hm.tiles hc (Nat.mul_pos (Nat.succ_pos _) hready.listingLines) a.location
  · intro set size hline hmachines ha start rows
    obtain ⟨hm, hothers⟩ := List.forall_mem_cons.mp hmachines
    have hsize : 0 < size := Nat.zero_lt_of_lt ha
    have hpages : out = _ :=
      out_evalOn_command (.dump set size mon.dumpRows) hready.core hline ⟨rfl, hm⟩
        fun x hx => ⟨hrest x hx, rfl, hothers x.1 (List.mem_map_of_mem hx)⟩
    rw [Book.pages_dump code set hready.dumpRows hsize ha.le] at hpages
    exact ⟨hpages, flatMap_pageStart ha.le pages,
      flatMap_dumpPages code set hready.dumpRows hsize ha.le pages,
      fun j => dumpPage_eq_nil code set hsize⟩
  · intro i lines hlines
    exact cursors_evalOn hlines

/-- In a memory of sixteen bytes the dump from the fifth on has a single page. -/
theorem empty_lines_turn_pages_of_single :
    let mon : Monitor := { cursors := #[{}], encoding := "ascii", listingLines := 2, dumpRows := 1 }
    let code : Code := ((single.system.core? 0).map Core.code).getD fun _ => 0
    mon.Ready ∧ mon.Lists code Mos6502.lister single ∧
      mon.Dumps code 16 CharacterSet.ascii single ∧
      (mon.evalOn [(single, "d 4"), (single, "")]).out =
        ({ mon with listingLines := 4 }.eval single "d 4").1.out ∧
      (Listing.lines Mos6502.lister code 4 4).1.length = 4 ∧
      (mon.evalOn [(single, "m 4"), (single, "")]).out =
        (mon.out.writeLines (Dump.rows code 16 CharacterSet.ascii 4 15)).1 := by
  intro mon code
  have hready : mon.Ready := ⟨Nat.zero_lt_one, Nat.zero_lt_two, Nat.zero_lt_one⟩
  have hlists : mon.Lists code Mos6502.lister single := ⟨rfl, _, rfl, rfl, rfl⟩
  have hdumps : mon.Dumps code 16 CharacterSet.ascii single := ⟨rfl, ⟨_, rfl, rfl, rfl⟩, rfl⟩
  have hempty : ∀ x ∈ [(single, "")], Text.words x.2 = [] := by
    simp only [List.mem_singleton, forall_eq]
    rfl
  let a : Address := ⟨"4", 4, rfl⟩
  obtain ⟨hlist, -⟩ := empty_lines_turn_pages mon hready single "d 4" _ hempty a code
  obtain ⟨-, hdump, -⟩ := empty_lines_turn_pages mon hready single "m 4" _ hempty a code
  obtain ⟨-, hwhole, hcount, -⟩ := hlist Mos6502.lister rfl (by simpa using hlists)
  obtain ⟨hrows, -, -, hnone⟩ := hdump CharacterSet.ascii 16 rfl (by simpa using hdumps) (by decide)
  have hlines : ([(single, "")].length + 1) * mon.listingLines = 4 := rfl
  rw [hlines] at hwhole hcount
  refine ⟨hready, hlists, hdumps, hwhole, hcount, ?_⟩
  have hrange : List.range ([(single, "")].length + 1) = [0, 1] := rfl
  have hfirst : min (4 + 16 * 1 * 0) 16 = 4 ∧ min (4 + 16 * 1 * (0 + 1)) 16 - 1 = 15 := by decide
  have hsecond := hnone 1 rfl
  beta_reduce at hrows hsecond
  rw [hrange, List.flatMap_cons, List.flatMap_singleton, hsecond, List.append_nil] at hrows
  rw [← hfirst.1, ← hfirst.2]
  exact hrows

end Monitor

end EightBit
