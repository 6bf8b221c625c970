import EightBit.Proofs.RoundTrip
import EightBit.Proofs.Snapshot

/-!
The format of a snapshot, which the stream itself does not tell.

A system knows which fields its snapshot has, and loading stores each of them as it stands in the
stream. Only the selected bank of a memory is not stored as it is: a number that is too large wraps
around. So any stream that can be read is what the system is saved as, up to the banks.
-/

namespace EightBit

open EightBit.Field (encodeAll)

@[simp] theorem FieldType.type_zero (t : FieldType) : t.zero.type = t := by
  cases t <;> simp [zero, Field.type]

theorem FieldType.writable_zero (t : FieldType) : t.zero.Writable := by
  cases t with
  | str => decide
  | _ => trivial

/-- What a snapshot has in one place. -/
inductive Entry where
  /-- A field that is stored as it is. -/
  | plain (t : FieldType)
  /-- The selected one of so many banks. -/
  | bank (banks : Nat)

namespace Entry

def type : Entry → FieldType
  | plain t => t
  | bank _ => .u32

/-- What is kept of a field that was read. -/
def settle : Entry → Field → Field
  | bank banks, .u32 n => .u32 (UInt32.ofNat (n.toNat % banks))
  | _, f => f

@[simp] theorem type_plain (t : FieldType) : (plain t).type = t := rfl

@[simp] theorem type_bank (banks : Nat) : (bank banks).type = .u32 := rfl

@[simp] theorem settle_plain (t : FieldType) (f : Field) : (plain t).settle f = f := rfl

@[simp] theorem settle_bank (banks : Nat) (n : UInt32) :
    (bank banks).settle (.u32 n) = .u32 (UInt32.ofNat (n.toNat % banks)) := rfl

theorem writable_settle (e : Entry) {f : Field} (h : f.Writable) : (e.settle f).Writable := by
  cases e with
  | plain t => exact h
  | bank banks =>
    cases f with
    | u32 n => trivial
    | _ => exact h

def settleAll (es : List Entry) (fs : List Field) : List Field := List.zipWith settle es fs

theorem writable_settleAll (es : List Entry) {fs : List Field} (h : ∀ f ∈ fs, f.Writable) :
    ∀ f ∈ settleAll es fs, f.Writable := by
  induction es generalizing fs with
  | nil => nofun
  | cons e es ih =>
    cases fs with
    | nil => nofun
    | cons f fs =>
      obtain ⟨hf, hfs⟩ := List.forall_mem_cons.mp h
      exact List.forall_mem_cons.mpr ⟨e.writable_settle hf, ih hfs⟩

def loadAll : List Entry → Reader → List Field × Reader
  | [], r => ([], r)
  | e :: es, r =>
    let (f, r) := r.field e.type
    let (fs, r) := loadAll es r
    (e.settle f :: fs, r)

theorem loadAll_eq (es : List Entry) (r : Reader) :
    loadAll es r =
      (settleAll es (r.fields (es.map type)).1, (r.fields (es.map type)).2) := by
  induction es generalizing r with
  | nil => rfl
  | cons e es ih =>
    simp only [loadAll, ih]
    rfl

theorem loadAll_append (es es' : List Entry) (r : Reader) :
    loadAll (es ++ es') r =
      ((loadAll es r).1 ++ (loadAll es' (loadAll es r).2).1,
        (loadAll es' (loadAll es r).2).2) := by
  induction es generalizing r with
  | nil => rfl
  | cons e es ih => simp only [List.cons_append, loadAll, ih]

end Entry

open Entry (loadAll settleAll)

namespace Memory

def format (m : Memory) : List Entry :=
  .bank m.banks ::
    (m.blocks.toList.filter (·.writable)).map fun b => .plain (.bytes b.data.size)

theorem loadAll_blocks (bs : List Block) (r : Reader) :
    loadAll ((bs.filter (·.writable)).map fun b => .plain (.bytes b.data.size)) r =
      (((loadBlocks bs r).1.filter (·.writable)).map fun b => .bytes b.data.toList,
        (loadBlocks bs r).2) := by
  induction bs generalizing r with
  | nil => rfl
  | cons b bs ih =>
    cases hb : b.writable <;> simp [loadAll, loadBlocks, Reader.field, hb, ih]

theorem loadAll_format (m : Memory) (r : Reader) :
    loadAll m.format r = ((m.load r).1.fields, (m.load r).2) := by
  have hbank : r.u32.1.toNat % m.banks < UInt32.size :=
    Nat.lt_of_le_of_lt (Nat.mod_le _ _) r.u32.1.toNat_lt
  have hselect : r.u32.1.toNat % m.maps.size < UInt32.size := hbank
  simp [format, loadAll, Reader.field, loadAll_blocks, load, fields, setBank, banks, hselect]

/-- The format is part of the layout. -/
theorem InstanceOf.format_eq {m base : Memory} (h : m.InstanceOf base) :
    m.format = base.format := by
  have hentries (bs : List Block) :
      (bs.filter (·.writable)).map (fun b => Entry.plain (.bytes b.data.size)) =
        (bs.map Block.outline).filterMap fun o =>
          if o.2 = none then some (.plain (.bytes o.1)) else none := by
    induction bs with
    | nil => rfl
    | cons b bs ih => cases hb : b.writable <;> simp [Block.outline, hb, ih]
  have hblocks : m.blocks.toList.map Block.outline = base.blocks.toList.map Block.outline :=
    congrArg Layout.blocks h.layout
  rw [format, format, h.banks_eq, hentries, hentries, hblocks]

theorem InstanceOf.load {m base : Memory} (h : m.InstanceOf base) (r : Reader) :
    (m.load r).1.InstanceOf base where
  layout := (layout_load m r).trans h.layout
  bank := Nat.mod_lt _ (Nat.zero_lt_of_lt h.bank)

end Memory

namespace Mos6502

def format (s : Mos6502) : List Entry :=
  [.plain .u16, .plain .u8, .plain .u8, .plain .u8, .plain .u8, .plain .u8] ++ s.mem.format

theorem loadAll_format (s : Mos6502) (r : Reader) :
    loadAll s.format r = ((s.load r).1.fields, (s.load r).2) := by
  simp [format, loadAll, Reader.field, Memory.loadAll_format, load, fields]

end Mos6502

namespace Z80

def format (s : Z80) : List Entry :=
  List.replicate 12 (.plain .u16) ++
    [.plain .u8, .plain .u8, .plain .bool, .plain .bool, .plain .u8, .plain .bool] ++
    s.mem.format ++ s.ports.format

theorem loadAll_format (s : Z80) (r : Reader) :
    loadAll s.format r = ((s.load r).1.fields, (s.load r).2) := by
  simp [format, List.replicate, loadAll, Entry.loadAll_append, Reader.field, Memory.loadAll_format,
    load, fields, setAF, setBC, setDE, setHL, af, bc, de, hl]

end Z80

namespace Core

def format : Core → List Entry
  | mos6502 s => s.format
  | z80 s => s.format
  | counter s => .plain .u16 :: s.mem.format

theorem loadAll_format (c : Core) (r : Reader) :
    loadAll c.format r = ((c.load r).1.fields, (c.load r).2) := by
  cases c with
  | mos6502 s => exact s.loadAll_format r
  | z80 s => exact s.loadAll_format r
  | counter s => simp [format, loadAll, Reader.field, Memory.loadAll_format, load, fields]

theorem InstanceOf.format_eq {c base : Core} (h : c.InstanceOf base) : c.format = base.format := by
  cases h with
  | mos6502 hmem => simp only [format, Mos6502.format, hmem.format_eq]
  | z80 hmem hports => simp only [format, Z80.format, hmem.format_eq, hports.format_eq]
  | counter hmem _ => simp only [format, hmem.format_eq]

theorem InstanceOf.load {c base : Core} (h : c.InstanceOf base) (r : Reader) :
    (c.load r).1.InstanceOf base := by
  cases h with
  | mos6502 hmem => exact .mos6502 (hmem.load _)
  | z80 hmem hports => exact .z80 (hmem.load _) (hports.load _)
  | counter hmem hfault => exact .counter (hmem.load _) hfault

@[simp] theorem latches_load (c : Core) (r : Reader) : (c.load r).1.latches = c.latches := by
  cases c <;> rfl

end Core

theorem Processor.InstanceOf.load {p base : Processor} (h : p.InstanceOf base) (r : Reader) :
    Processor.InstanceOf { p with core := (p.core.load r).1 } base where
  name := h.name
  core := h.core.load r
  latches := (p.core.latches_load r).trans h.latches

namespace System

def format? (sys : System) : Option (List Entry) :=
  sys.saved.map fun latches =>
    sys.processors.toList.flatMap (·.core.format) ++ latches.map fun _ => .plain .u8

theorem loadAll_processors (ps : List Processor) (r : Reader) :
    loadAll (ps.flatMap (·.core.format)) r =
      ((loadProcessors ps r).1.flatMap (·.core.fields), (loadProcessors ps r).2) := by
  induction ps generalizing r with
  | nil => rfl
  | cons p ps ih =>
    simp only [List.flatMap_cons, Entry.loadAll_append, Core.loadAll_format, ih, loadProcessors,
      Core.cpu_load]

theorem size_loadLatches (l : Latches) (is : List Nat) (r : Reader) :
    (loadLatches l is r).1.values.size = l.values.size := by
  induction is generalizing l r with
  | nil => rfl
  | cons i is ih => rw [loadLatches, ih, Latches.size_set]

theorem get_loadLatches (l : Latches) {is : List Nat} {i : Nat} (h : i ∉ is) (r : Reader) :
    (loadLatches l is r).1.get i = l.get i := by
  induction is generalizing l r with
  | nil => rfl
  | cons j is ih =>
    obtain ⟨hj, his⟩ := not_or.mp (mt List.mem_cons.mpr h)
    rw [loadLatches, ih _ his]
    simp [Latches.get, Latches.set, Array.getD_eq_getD_getElem?, Ne.symm hj]

/-- What is loaded into registers is found there, if they are different ones. -/
theorem loadAll_latches (l : Latches) {is : List Nat} (hnodup : is.Nodup)
    (hbound : ∀ i ∈ is, i < l.values.size) (r : Reader) :
    loadAll (is.map fun _ => .plain .u8) r =
      (is.map fun i => .u8 ((loadLatches l is r).1.get i), (loadLatches l is r).2) := by
  induction is generalizing l r with
  | nil => rfl
  | cons i is ih =>
    obtain ⟨hi, his⟩ := List.nodup_cons.mp hnodup
    obtain ⟨hsize, hsizes⟩ := List.forall_mem_cons.mp hbound
    have hrest := ih (l.set i r.u8.1) his (by simpa using hsizes) r.u8.2
    have hget : (l.set i r.u8.1).get i = r.u8.1 := by
      simp [Latches.get, Latches.set, Array.getD_eq_getD_getElem?, hsize]
    simp only [List.map_cons, loadAll, Entry.type_plain, Entry.settle_plain, Reader.field, hrest,
      loadLatches, get_loadLatches _ hi, hget]

theorem InstanceOf.load {sys t base : System} {r r' : Reader} (h : sys.InstanceOf base)
    (hload : sys.load? r = some (t, r')) : t.InstanceOf base := by
  have hprocessors {ps bases : List Processor} (h : List.Forall₂ Processor.InstanceOf ps bases)
      (r : Reader) : List.Forall₂ Processor.InstanceOf (loadProcessors ps r).1 bases := by
    induction h generalizing r with
    | nil => exact .nil
    | cons hp _ ih => exact .cons (hp.load r) (ih _)
  simp only [load?, Option.map_eq_some_iff] at hload
  obtain ⟨saved, -, heq⟩ := hload
  obtain ⟨rfl, -⟩ := Prod.mk.inj heq
  refine ⟨?_, hprocessors h.processors r, (size_loadLatches _ _ _).trans h.latches⟩
  rw [h.same]

theorem InstanceOf.format?_eq {sys base : System} (h : sys.InstanceOf base) :
    sys.format? = base.format? := by
  have hsaved : sys.saved = base.saved := by rw [h.same]
  have hformats {ps bases : List Processor} (h : List.Forall₂ Processor.InstanceOf ps bases) :
      ps.flatMap (·.core.format) = bases.flatMap (·.core.format) := by
    induction h with
    | nil => rfl
    | cons hp _ ih => rw [List.flatMap_cons, List.flatMap_cons, hp.core.format_eq, ih]
  rw [format?, format?, hsaved, hformats h.processors]

/-- Loading stores what the format lists, as far as the stream goes. -/
theorem load_format {sys base : System} (h : sys.InstanceOf base)
    (hsaved : base.saved = some (List.range base.latches.values.size)) (r : Reader) :
    ∃ es t, base.format? = some es ∧ sys.load? r = some (t, (loadAll es r).2) ∧
      t.fields? = some (loadAll es r).1 := by
  have hsys : sys.saved = some (List.range sys.latches.values.size) := by
    rw [h.latches, h.same]
    exact hsaved
  have hes : base.format? = some (sys.processors.toList.flatMap (·.core.format) ++
      (List.range sys.latches.values.size).map fun _ => .plain .u8) := by
    rw [← h.format?_eq, format?, hsys, Option.map_some]
  obtain ⟨ps, r', hps⟩ : ∃ ps r', loadProcessors sys.processors.toList r = (ps, r') := ⟨_, _, rfl⟩
  have hlatches := loadAll_latches sys.latches List.nodup_range
    (fun i hi => List.mem_range.mp hi) r'
  refine ⟨_, { sys with
    processors := ps.toArray
    latches := (loadLatches sys.latches (List.range sys.latches.values.size) r').1 }, hes, ?_, ?_⟩
  · simp only [load?, hsys, Option.map_some, Entry.loadAll_append, loadAll_processors, hps,
      hlatches]
  · simp only [fields?, Core.cpu_fields, hsys, Option.map_some, Entry.loadAll_append,
      loadAll_processors, hps, hlatches]

/-- Whatever can be read without an error is what the system is saved as from there, but for the
banks: `es` is the format, `fs` are the fields that were read, and of a bank number only the
remainder is kept. -/
theorem save_loaded {base s : System} (hbase : base ∈ demos) (hs : s.InstanceOf base)
    (bytes : List UInt8) :
    ∃ es fs t r, base.format? = some es ∧
      (Reader.ofBytes bytes).fields (es.map Entry.type) = (fs, r) ∧
      s.load? (Reader.ofBytes bytes) = some (t, r) ∧ t.fields? = some (settleAll es fs) ∧
      (r.error = none → bytes = encodeAll fs ++ r.rest ∧
        (({} : Writer).putAll (settleAll es fs)).error = none ∧
        (({} : Writer).putAll (settleAll es fs)).sink.bytes.toList =
          encodeAll (settleAll es fs)) := by
  obtain ⟨hsaved, -⟩ := demo_saves hbase
  obtain ⟨es, t, hes, hload, hfields⟩ := load_format hs hsaved (Reader.ofBytes bytes)
  rw [Entry.loadAll_eq] at hload hfields
  refine ⟨es, _, t, _, hes, rfl, hload, hfields, ?_⟩
  intro hsound
  obtain ⟨-, hwritable, hreads⟩ := Reader.reads_fields hsound
  refine ⟨hreads.rest, ?_⟩
  rw [Writer.putAll_empty (Entry.writable_settleAll es hwritable)]
  exact ⟨rfl, rfl⟩

/-- Fields for a format, all of them zero but the banks, which are numbered seven. -/
def inBankSeven (es : List Entry) : List Field :=
  es.map fun e => if e.type = .u32 then .u32 7 else e.type.zero

/-- A dual system that has run takes a stream that selects banks it does not have. -/
theorem save_loaded_inBankSeven :
    ∃ es t, dual.format? = some es ∧
      (dual.run [.processor 0, .processor 1]).load?
          (Reader.ofBytes (encodeAll (inBankSeven es) ++ [9])) = some (t, Reader.ofBytes [9]) ∧
      t.fields? = some (settleAll es (inBankSeven es)) := by
  have hbase : dual ∈ demos := by simp [demos]
  have hs := (instanceOf_demo hbase).run [.processor 0, .processor 1]
  obtain ⟨es, hes⟩ : ∃ es, dual.format? = some es := ⟨_, rfl⟩
  have hread : (Reader.ofBytes (encodeAll (inBankSeven es) ++ [9])).fields (es.map Entry.type) =
      (inBankSeven es, Reader.ofBytes [9]) := by
    have htypes : (inBankSeven es).map Field.type = es.map Entry.type := by
      rw [inBankSeven, List.map_map]
      apply List.map_congr_left
      intro e _
      simp only [Function.comp_apply]
      split
      · next h => exact h.symm
      · exact FieldType.type_zero _
    have hwritable : ∀ f ∈ inBankSeven es, f.Writable := by
      intro f hf
      obtain ⟨e, -, rfl⟩ := List.mem_map.mp hf
      split
      · trivial
      · exact FieldType.writable_zero _
    rw [← htypes]
    exact Reader.fields_encodeAll hwritable [9]
  obtain ⟨es', fs, t, r, hes', hfields, hload, hsaved, -⟩ :=
    save_loaded hbase hs (encodeAll (inBankSeven es) ++ [9])
  obtain rfl : es = es' := Option.some.inj (hes.symm.trans hes')
  obtain ⟨rfl, rfl⟩ := Prod.mk.inj (hread.symm.trans hfields)
  exact ⟨es, t, hes, hload, hsaved⟩

end System

end EightBit
