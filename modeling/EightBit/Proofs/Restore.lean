import EightBit.Machine.Assembly
import EightBit.Proofs.Format

/-!
Restoring from a file that cannot be read to its end.

A reader gives zeros from its first failure on, and what it gives is stored as it comes. So a
failure leaves the fields in front of it as the file has them and zero in all others, and it leaves
everything but the state of the system as it was.
-/

namespace EightBit

open Entry (loadAll settleAll)

namespace Reader

variable {r : Reader} {e : StreamError}

theorem take_error {n : Nat} (h : (r.take n).2.error = some e) :
    (r.take n).1 = List.replicate n 0 := by
  simp only [take] at h ⊢
  split
  · rfl
  · next hsound =>
    rw [hsound] at h
    dsimp only at h
    split at h
    · contradiction
    · next hshort => rw [if_neg hshort]

theorem ofLittleEndian_replicate (n : Nat) : ofLittleEndian (List.replicate n 0) = 0 := by
  induction n with
  | zero => rfl
  | succ n ih => simp [List.replicate_succ, ofLittleEndian, ih]

theorem number_error {n : Nat} (h : (r.number n).2.error = some e) : (r.number n).1 = 0 := by
  have htake : (r.take n).1 = List.replicate n 0 := take_error h
  simp only [number, htake, ofLittleEndian_replicate]

theorem u8_error (h : r.u8.2.error = some e) : r.u8.1 = 0 := by
  have hnumber : (r.number 1).1 = 0 := number_error h
  simp [u8, hnumber]

theorem u16_error (h : r.u16.2.error = some e) : r.u16.1 = 0 := by
  have hnumber : (r.number 2).1 = 0 := number_error h
  simp [u16, hnumber]

theorem u32_error (h : r.u32.2.error = some e) : r.u32.1 = 0 := by
  have hnumber : (r.number 4).1 = 0 := number_error h
  simp [u32, hnumber]

theorem u64_error (h : r.u64.2.error = some e) : r.u64.1 = 0 := by
  have hnumber : (r.number 8).1 = 0 := number_error h
  simp [u64, hnumber]

theorem bool_error (h : r.bool.2.error = some e) : r.bool.1 = false := by
  simp only [bool] at h ⊢
  split at h
  · next hzero => simp only [hzero, ↓reduceIte]
  · next hzero =>
    split at h
    · exact absurd (u8_error h) hzero
    · next hone => simp only [hzero, hone, ↓reduceIte]

theorem str_error (h : r.str.2.error = some e) : r.str.1 = "" := by
  simp only [str] at h ⊢
  split
  · rfl
  · next hsound =>
    simp only [hsound] at h
    split at h
    · next hlength =>
      split at h
      · contradiction
      · simp only [hlength, ↓reduceIte]
    · next hlength => rw [if_neg hlength]

/-- A field at which reading fails is given as zero. -/
theorem field_error {t : FieldType} (h : (r.field t).2.error = some e) :
    (r.field t).1 = t.zero := by
  cases t with
  | bool => exact congrArg Field.bool (bool_error h)
  | u8 => exact congrArg Field.u8 (u8_error h)
  | u16 => exact congrArg Field.u16 (u16_error h)
  | u32 => exact congrArg Field.u32 (u32_error h)
  | u64 => exact congrArg Field.u64 (u64_error h)
  | i8 => exact congrArg (fun v => Field.i8 v.toInt8) (u8_error h)
  | i16 => exact congrArg (fun v => Field.i16 v.toInt16) (u16_error h)
  | i32 => exact congrArg (fun v => Field.i32 v.toInt32) (u32_error h)
  | i64 => exact congrArg (fun v => Field.i64 v.toInt64) (u64_error h)
  | str => exact congrArg Field.str (str_error h)
  | bytes n => exact congrArg Field.bytes (take_error h)

theorem take_of_error (h : r.error = some e) (n : Nat) : r.take n = (List.replicate n 0, r) := by
  simp only [take, h]

theorem number_of_error (h : r.error = some e) (n : Nat) : r.number n = (0, r) := by
  simp only [number, take_of_error h, ofLittleEndian_replicate]

/-- A reader that has failed stays as it is. -/
theorem field_of_error (h : r.error = some e) (t : FieldType) : r.field t = (t.zero, r) := by
  cases t <;>
    simp [field, bool, u8, u16, u32, u64, str, take_of_error h, number_of_error h, h,
      FieldType.zero]

end Reader

namespace Entry

variable {es : List Entry} {r : Reader} {e : StreamError}

theorem settle_zero (entry : Entry) : entry.settle entry.type.zero = entry.type.zero := by
  cases entry with
  | plain t => rfl
  | bank banks => simp [FieldType.zero]

theorem loadAll_of_error (h : r.error = some e) (es : List Entry) :
    loadAll es r = (es.map (·.type.zero), r) := by
  induction es with
  | nil => rfl
  | cons entry es ih =>
    simp only [loadAll, Reader.field_of_error h, settle_zero, ih, List.map_cons]

/-- The entries in front can be read, and at the one behind them reading fails. -/
structure Stops (front : List Entry) (entry : Entry) (r : Reader) (e : StreamError) : Prop where
  sound : front ≠ [] → (loadAll front r).2.error = none
  fails : ((loadAll front r).2.field entry.type).2.error = some e

/-- A failure is a failure at some entry, and from there on everything is zero. -/
theorem loadAll_error (hes : es ≠ []) (h : (loadAll es r).2.error = some e) :
    ∃ front entry back, es = front ++ entry :: back ∧ Stops front entry r e ∧
      (loadAll es r).1 = (loadAll front r).1 ++ (entry :: back).map (·.type.zero) := by
  induction es generalizing r with
  | nil => contradiction
  | cons entry es ih =>
    cases hfirst : (r.field entry.type).2.error with
    | some e' =>
      have hrest := loadAll_of_error hfirst es
      have he : e' = e := by
        simp only [loadAll, hrest] at h
        exact Option.some.inj (hfirst.symm.trans h)
      refine ⟨[], entry, es, rfl, ⟨absurd rfl, he ▸ hfirst⟩, ?_⟩
      simp only [loadAll, hrest, Reader.field_error hfirst, settle_zero, List.map_cons,
        List.nil_append]
    | none =>
      have hes' : es ≠ [] := by
        rintro rfl
        exact Option.some_ne_none e (h.symm.trans hfirst)
      obtain ⟨front, entry', back, rfl, hstops, hvalues⟩ := @ih (r.field entry.type).2 hes' h
      refine ⟨entry :: front, entry', back, rfl, ⟨?_, hstops.fails⟩, ?_⟩
      · intro _
        by_cases hfront : front = []
        · subst hfront
          exact hfirst
        · exact hstops.sound hfront
      · exact congrArg (entry.settle (r.field entry.type).1 :: ·) hvalues

end Entry

namespace Machine

theorem demo_format {base : System} (h : base ∈ System.demos) : base.format? ≠ some [] := by
  simp only [System.demos, List.mem_cons, List.not_mem_nil, or_false] at h
  rcases h with rfl | rfl | rfl <;>
    simp [System.format?, System.mos6502, System.z80, System.dual, Core.format, Mos6502.format,
      Z80.format]

/-- A restore that fails leaves everything but the state of the system as it was, and that as well
if the file cannot be opened. Otherwise the system holds what the file has up to the field at which
reading fails, and zero from there on. Whichever character set is selected stays selected. -/
theorem restore_error {base : System} (hbase : base ∈ System.demos) {catalog : Catalog}
    {m : Machine} (hm : m.system.InstanceOf { base with catalog }) {path : String}
    {e : MachineError} (h : (m.restore path).2 = .error e) :
    (m.restore path).1 = { m with system := (m.restore path).1.system } ∧
      (m.restore path).1.system.InstanceOf { base with catalog } ∧
      ((∃ failure, m.directory.openFile path = .error failure ∧
          e = .file .restore path failure ∧ (m.restore path).1 = m) ∨
        ∃ source error front entry back, m.directory.openFile path = .ok source ∧
          e = .stream error ∧ base.format? = some (front ++ entry :: back) ∧
          Entry.Stops front entry (readerOf source) error ∧
          (m.restore path).1.system.fields? =
            some ((loadAll front (readerOf source)).1 ++
              (entry :: back).map (·.type.zero))) := by
  obtain ⟨hsaved, -⟩ := System.demo_saves hbase
  have hmsaved : m.system.saved = some (List.range base.latches.values.size) := by
    rw [hm.same]
    exact hsaved
  cases hopen : m.directory.openFile path with
  | error failure =>
    have hrestore : m.restore path = (m, .error (.file .restore path failure)) := by
      simp only [restore, hmsaved, hopen]
    rw [hrestore] at h ⊢
    exact ⟨rfl, hm, .inl ⟨failure, rfl, (Except.error.inj h).symm, rfl⟩⟩
  | ok source =>
    obtain ⟨es, t, hes, hload, hfields⟩ := System.load_format hm hsaved (readerOf source)
    cases herror : (loadAll es (readerOf source)).2.error with
    | none =>
      exfalso
      simp [restore, hmsaved, hopen, hload, herror] at h
    | some error =>
      have hrestore : m.restore path = ({ m with system := t }, .error (.stream error)) := by
        simp only [restore, hmsaved, hopen, hload, herror]
      obtain ⟨front, entry, back, rfl, hstops, hvalues⟩ :=
        Entry.loadAll_error (fun hempty => demo_format hbase (hempty ▸ hes)) herror
      rw [hrestore] at h ⊢
      refine ⟨rfl, hm.load hload, .inr ⟨source, error, front, entry, back, rfl,
        (Except.error.inj h).symm, hes, hstops, ?_⟩⟩
      exact hvalues ▸ hfields

/-- A file of two bytes, which are the program counter of a snapshot and no more. -/
def twoBytes : Directory := { files := [("f", [0x34, 0x12])] }

def fresh : Machine := { ofSystem System.z80 1 with directory := twoBytes }

theorem openFile_fresh : fresh.directory.openFile "f" = .ok (.content [0x34, 0x12]) := by
  -- Splitting at slashes recurses on the positions of the path, one letter and then its end.
  have hsplit : "f".splitOn "/" = ["f"] := by
    rw [String.splitOn, if_neg (by decide), String.splitOnAux, if_neg (by decide),
      if_neg (by decide), String.splitOnAux, if_pos (by decide)]
    decide
  have hnames : Directory.readComponents "f" = ["f"] := by
    rw [Directory.readComponents, Directory.components, hsplit]
    decide +kernel
  rw [Directory.openFile, hnames]
  decide +kernel

theorem restore_twoBytes :
    ∃ system after, fresh.restore "f" =
        ({ fresh with system }, .error (.stream (.io .shortRead))) ∧
      system.core? 0 = some (.z80 after) ∧ after.a = 0 ∧ after.pc = 0x1234 := by
  have hsaved : fresh.system.saved = some [] := rfl
  obtain ⟨system, r, hload, herror, after, hafter⟩ :
      ∃ system r, fresh.system.load? (readerOf (.content [0x34, 0x12])) = some (system, r) ∧
        r.error = some (.io .shortRead) ∧
        ∃ after, system.core? 0 = some (.z80 after) ∧ after.a = 0 ∧ after.pc = 0x1234 :=
    ⟨_, _, rfl, rfl, _, rfl, rfl, rfl⟩
  refine ⟨system, after, ?_, hafter⟩
  simp only [restore, hsaved, openFile_fresh, hload, herror]

/-- A restore that fails is not undone: the Z80 has lost its accumulator. -/
theorem restore_not_undone :
    (fresh.restore "f").2 = .error (.stream (.io .shortRead)) ∧
      ∃ before after, fresh.system.core? 0 = some (.z80 before) ∧
        (fresh.restore "f").1.system.core? 0 = some (.z80 after) ∧
        before.a = 0xff ∧ after.a = 0 ∧ after.pc = 0x1234 := by
  obtain ⟨system, after, hrestore, hafter, ha, hpc⟩ := restore_twoBytes
  rw [hrestore]
  exact ⟨rfl, _, after, rfl, hafter, rfl, ha, hpc⟩

/-- A fresh 6502 beside that file, with the screen codes selected. -/
def onScreen : Machine :=
  { ofSystem { System.mos6502 with catalog := { Catalog.commodore with default := "screen" } } 1
    with directory := twoBytes }

theorem restore_error_onScreen :
    (onScreen.restore "f").1 = { onScreen with system := (onScreen.restore "f").1.system } ∧
      (onScreen.restore "f").1.system.catalog.default = "screen" ∧
      ∃ front entry back, System.mos6502.format? = some (front ++ entry :: back) ∧
        Entry.Stops front entry (Reader.ofBytes [0x34, 0x12]) (.io .shortRead) ∧
        (onScreen.restore "f").1.system.fields? =
          some ((loadAll front (Reader.ofBytes [0x34, 0x12])).1 ++
            (entry :: back).map (·.type.zero)) := by
  have hbase : System.mos6502 ∈ System.demos := by simp [System.demos]
  have hm : onScreen.system.InstanceOf
      { System.mos6502 with catalog := { Catalog.commodore with default := "screen" } } :=
    ⟨rfl, (System.instanceOf_demo hbase).processors, rfl⟩
  have hopen : onScreen.directory.openFile "f" = .ok (.content [0x34, 0x12]) := openFile_fresh
  have hsaved : onScreen.system.saved = some [0] := rfl
  have herror : (onScreen.restore "f").2 = .error (.stream (.io .shortRead)) := by
    obtain ⟨system, r, hload, hr⟩ :
        ∃ system r, onScreen.system.load? (readerOf (.content [0x34, 0x12])) = some (system, r) ∧
          r.error = some (.io .shortRead) := ⟨_, _, rfl, rfl⟩
    simp only [restore, hsaved, hopen, hload, hr]
  obtain ⟨hrest, hinstance, hcases⟩ := restore_error hbase hm herror
  refine ⟨hrest, by rw [hinstance.same], ?_⟩
  rcases hcases with ⟨_, hfailed, -⟩ | ⟨source, error, front, entry, back, hread, he, hstored⟩
  · exact absurd (hfailed.symm.trans hopen) (by simp)
  · obtain rfl : source = .content [0x34, 0x12] := Except.ok.inj (hread.symm.trans hopen)
    obtain rfl : error = .io .shortRead := by simpa using he.symm
    exact ⟨front, entry, back, hstored⟩

end Machine

end EightBit
