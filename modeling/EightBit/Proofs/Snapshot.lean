import EightBit.Proofs.Processor
import EightBit.Proofs.Ram
import EightBit.Proofs.Turns
import EightBit.Proofs.Word
import EightBit.System.Demo
import Mathlib.Data.List.Forall2
import Mathlib.Logic.Function.Iterate

/-!
Snapshots restore what they were made from.

Two instances of a system have the same processors over memories of the same layout, and share
nothing else: registers, storage, banks and latches are arbitrary. Whatever one of them saves, the
other can load.
-/

namespace EightBit

namespace Memory

theorem writable_fields (m : Memory) : ∀ f ∈ m.fields, f.Writable := by
  intro f hf
  rcases List.mem_cons.mp hf with rfl | hf
  · trivial
  · obtain ⟨b, _, rfl⟩ := List.mem_map.mp hf
    trivial

end Memory

namespace Mos6502

theorem writable_fields (s : Mos6502) : ∀ f ∈ s.fields, f.Writable := by
  simp only [fields, List.forall_mem_append, List.forall_mem_cons]
  exact ⟨by simp [Field.Writable], s.mem.writable_fields⟩

/-- Loading gives back everything but the registers behind the ports, which are not saved here. -/
theorem load_fields {s t : Mos6502} {base : Memory} (hs : s.mem.InstanceOf base)
    (ht : t.mem.InstanceOf base) (hbanks : base.banks ≤ UInt32.size) (rest : List UInt8) :
    t.load (Reader.ofBytes (Field.encodeAll s.fields ++ rest)) =
      ({ s with latches := t.latches }, Reader.ofBytes rest) := by
  simp [load, fields, Memory.load_fields hs ht hbanks]

end Mos6502

namespace Z80

theorem writable_fields (s : Z80) : ∀ f ∈ s.fields, f.Writable := by
  simp only [fields, List.forall_mem_append, List.forall_mem_cons]
  exact ⟨⟨by simp [Field.Writable], s.mem.writable_fields⟩, s.ports.writable_fields⟩

theorem load_fields {s t : Z80} {base ports : Memory} (hs : s.mem.InstanceOf base)
    (ht : t.mem.InstanceOf base) (hbanks : base.banks ≤ UInt32.size)
    (hsp : s.ports.InstanceOf ports) (htp : t.ports.InstanceOf ports)
    (hportBanks : ports.banks ≤ UInt32.size) (rest : List UInt8) :
    t.load (Reader.ofBytes (Field.encodeAll s.fields ++ rest)) =
      ({ s with latches := t.latches }, Reader.ofBytes rest) := by
  simp [load, fields, Memory.load_fields hs ht hbanks, Memory.load_fields hsp htp hportBanks,
    setAF, setBC, setDE, setHL, af, bc, de, hl]

end Z80

namespace Core

theorem writable_fields (c : Core) : ∀ f ∈ c.fields, f.Writable := by
  cases c with
  | mos6502 s => exact s.writable_fields
  | z80 s => exact s.writable_fields
  | counter s => exact List.forall_mem_cons.mpr ⟨trivial, s.mem.writable_fields⟩

/-- A processor that differs from another in registers and in the content of its memories only. -/
inductive InstanceOf : Core → Core → Prop
  | mos6502 {s base : Mos6502} (hmem : s.mem.InstanceOf base.mem) :
      InstanceOf (mos6502 s) (mos6502 base)
  | z80 {s base : Z80} (hmem : s.mem.InstanceOf base.mem)
      (hports : s.ports.InstanceOf base.ports) : InstanceOf (z80 s) (z80 base)
  | counter {s base : Counter} (hmem : s.mem.InstanceOf base.mem) (hfault : s.fault = base.fault) :
      InstanceOf (counter s) (counter base)

theorem InstanceOf.connect {c base : Core} (h : c.InstanceOf base) (l : Latches) :
    (c.connect l).InstanceOf base := by
  cases h with
  | mos6502 hmem => exact .mos6502 hmem
  | z80 hmem hports => exact .z80 hmem hports
  | counter hmem hfault => exact .counter hmem hfault

/-- A step leads from one instance to another. -/
theorem InstanceOf.step {c base : Core} (h : c.InstanceOf base) : c.step.InstanceOf base := by
  cases h with
  | @mos6502 s _ hmem =>
    exact .mos6502 (hmem.of_layout s.layout_step s.bank_step)
  | @z80 s _ hmem hports =>
    have hwiring := s.wiring_step
    exact .z80
      (hmem.of_layout (congrArg Z80.Wiring.layout hwiring) (congrArg Z80.Wiring.bank hwiring))
      (hports.of_layout (congrArg Z80.Wiring.portLayout hwiring)
        (congrArg Z80.Wiring.portBank hwiring))
  | counter hmem hfault => exact .counter hmem hfault

/-- An instance restores what any other has saved. -/
theorem load_fields {c d base : Core} (hc : c.InstanceOf base) (hd : d.InstanceOf base)
    (hbanks : ∀ m ∈ base.memories, m.banks ≤ UInt32.size) (rest : List UInt8) :
    d.load (Reader.ofBytes (Field.encodeAll c.fields ++ rest)) =
      (c.connect d.latches, Reader.ofBytes rest) := by
  cases hc with
  | mos6502 hs =>
    cases hd with
    | mos6502 ht =>
      have hbank := hbanks _ (List.mem_singleton_self _)
      simp only [load, fields, Mos6502.load_fields hs ht hbank]
      rfl
  | @z80 s base hs hsp =>
    cases hd with
    | z80 ht htp =>
      obtain ⟨hbank, hportBank⟩ :
          base.mem.banks ≤ UInt32.size ∧ base.ports.banks ≤ UInt32.size := by
        simpa [memories] using hbanks
      simp only [load, fields, Z80.load_fields hs ht hbank hsp htp hportBank]
      rfl
  | counter hs hfault =>
    cases hd with
    | counter ht hfault' =>
      have hbank := hbanks _ (List.mem_singleton_self _)
      simp [load, fields, Memory.load_fields hs ht hbank, connect, latches, hfault, hfault']

end Core

/-- A processor under the same name, disconnected from the registers as a system keeps it. -/
structure Processor.InstanceOf (p base : Processor) : Prop where
  name : p.name = base.name
  core : p.core.InstanceOf base.core
  latches : p.core.latches = {}

theorem Processor.InstanceOf.step {p base : Processor} (h : p.InstanceOf base) (l : Latches) :
    Processor.InstanceOf { p with core := ((p.core.connect l).step).connect {} } base where
  name := h.name
  core := ((h.core.connect l).step).connect {}
  latches := Core.latches_connect _ _

namespace System

/-- A system that differs from another in the state of its processors and the values of its
registers only. -/
structure InstanceOf (sys base : System) : Prop where
  same : sys = { base with processors := sys.processors, latches := sys.latches }
  processors : List.Forall₂ Processor.InstanceOf sys.processors.toList base.processors.toList
  latches : sys.latches.values.size = base.latches.values.size

theorem forall₂_modify {ps bases : List Processor} {f : Processor → Processor}
    (h : List.Forall₂ Processor.InstanceOf ps bases)
    (hf : ∀ {p base : Processor}, p.InstanceOf base → (f p).InstanceOf base) (i : Nat) :
    List.Forall₂ Processor.InstanceOf (ps.modify i f) bases := by
  induction h generalizing i with
  | nil => simp
  | cons hp hps ih =>
    cases i with
    | zero => exact .cons (hf hp) hps
    | succ i => exact .cons hp (ih i)

/-- A turn leads from one instance to another. -/
theorem InstanceOf.perform {sys base : System} (h : sys.InstanceOf base) (turn : Turn) :
    (sys.perform turn).InstanceOf base := by
  cases turn with
  | processor i =>
    refine ⟨?_, ?_, ?_⟩
    · rw [h.same]
      rfl
    · rw [System.perform, processors_update]
      exact forall₂_modify h.processors (fun hp => hp.step sys.latches) i
    · rw [System.perform, latches_update]
      split
      · rw [Core.cpu_step, Core.cpu_latches, Core.size_latches_step, ← Core.cpu_latches,
          Cpu.latches_connect, h.latches]
      · exact h.latches
  | ticker j =>
    simp only [System.perform]
    split
    · refine ⟨?_, h.processors, ?_⟩
      · rw [h.same]
      · rw [Latches.increment, Latches.size_set, h.latches]
    · exact h

theorem InstanceOf.run {sys base : System} (h : sys.InstanceOf base) (turns : List Turn) :
    (sys.run turns).InstanceOf base := by
  induction turns generalizing sys with
  | nil => exact h
  | cons turn turns ih => exact ih (h.perform turn)

/-- Processors restore what their counterparts have saved, each from where the one before ended. -/
theorem loadProcessors_fields {ps qs bases : List Processor}
    (hp : List.Forall₂ Processor.InstanceOf ps bases)
    (hq : List.Forall₂ Processor.InstanceOf qs bases)
    (hbanks : ∀ base ∈ bases, ∀ m ∈ base.core.memories, m.banks ≤ UInt32.size)
    (rest : List UInt8) :
    loadProcessors qs (Reader.ofBytes (Field.encodeAll (ps.flatMap (·.core.fields)) ++ rest)) =
      (ps, Reader.ofBytes rest) := by
  induction hp generalizing qs with
  | nil =>
    cases hq
    rfl
  | @cons p base ps bases hp hps ih =>
    obtain _ | ⟨hq, hqs⟩ := hq
    next q qs =>
    obtain ⟨hbase, hbases⟩ := List.forall_mem_cons.mp hbanks
    have hcore := Core.load_fields hp.core hq.core hbase
      (Field.encodeAll (ps.flatMap (·.core.fields)) ++ rest)
    have hconnect : p.core.connect {} = p.core := Core.connect_of_latches hp.latches
    have hname : q.name = p.name := hq.name.trans hp.name.symm
    simp only [List.flatMap_cons, Field.encodeAll_append, List.append_assoc, loadProcessors,
      Core.cpu_load, hcore, ih hqs hbases, hq.latches, hconnect, hname]

theorem loadLatches_fields (l saved : Latches) (is : List Nat) (rest : List UInt8) :
    loadLatches l is
        (Reader.ofBytes (Field.encodeAll (is.map fun i => .u8 (saved.get i)) ++ rest)) =
      (is.foldl (fun l i => l.set i (saved.get i)) l, Reader.ofBytes rest) := by
  induction is generalizing l with
  | nil => rfl
  | cons i is ih =>
    simp only [List.map_cons, Field.encodeAll_cons, List.append_assoc, loadLatches,
      Reader.u8_ofBytes, ih, List.foldl_cons]

theorem toList_set (l : Latches) (i : Nat) (v : UInt8) :
    (l.set i v).values.toList = l.values.toList.set i v := Array.toList_setIfInBounds

/-- Setting every register to its value in another file of the same size copies that file. -/
theorem foldl_set_range {l saved : Latches} (h : l.values.size = saved.values.size) :
    (List.range saved.values.size).foldl (fun l i => l.set i (saved.get i)) l = saved := by
  -- The registers below `k` have been copied after `k` rounds, and the others are untouched.
  have hcopy (k : Nat) (hk : k ≤ saved.values.size) :
      ((List.range k).foldl (fun l i => l.set i (saved.get i)) l).values.toList =
        saved.values.toList.take k ++ l.values.toList.drop k := by
    induction k with
    | zero => simp
    | succ k ih =>
      have hl : k < l.values.toList.length := by rwa [Array.length_toList, h]
      have hs : k < saved.values.toList.length := by rwa [Array.length_toList]
      have hget : saved.get k = saved.values.toList[k] := by
        simp [Latches.get, Array.getD, Nat.lt_of_succ_le hk]
      have htake : (saved.values.toList.take k).length = k := by
        rw [List.length_take]
        omega
      rw [List.range_succ, List.foldl_append, List.foldl_cons, List.foldl_nil, toList_set,
        ih (by omega), hget, List.set_append_right _ _ (by omega), htake, Nat.sub_self,
        List.drop_eq_getElem_cons hl, List.set_cons_zero, ← List.take_append_getElem hs,
        List.append_assoc, List.singleton_append]
  have hall := hcopy _ (Nat.le_refl _)
  have hdrop : l.values.toList.drop saved.values.size = [] :=
    List.drop_eq_nil_of_le (by simp [h])
  have htake : saved.values.toList.take saved.values.size = saved.values.toList :=
    List.take_length
  rw [htake, hdrop, List.append_nil] at hall
  exact congrArg Latches.mk (Array.toList_inj.mp hall)

/-- The bytes that a system is saved as restore it in every instance, if all its registers are
saved. -/
theorem fields_load {s t base : System} (hs : s.InstanceOf base) (ht : t.InstanceOf base)
    (hsaved : base.saved = some (List.range base.latches.values.size))
    (hbanks : ∀ p ∈ base.processors.toList, ∀ m ∈ p.core.memories, m.banks ≤ UInt32.size) :
    ∃ fs, s.fields? = some fs ∧ (∀ f ∈ fs, f.Writable) ∧ ∀ rest,
      t.load? (Reader.ofBytes (Field.encodeAll fs ++ rest)) = some (s, Reader.ofBytes rest) := by
  have hssaved : s.saved = some (List.range s.latches.values.size) := by
    rw [hs.latches, hs.same]
    exact hsaved
  have htsaved : t.saved = some (List.range s.latches.values.size) := by
    rw [hs.latches, ht.same]
    exact hsaved
  refine ⟨s.processors.toList.flatMap (·.core.fields) ++
    (List.range s.latches.values.size).map fun i => .u8 (s.latches.get i), ?_, ?_, ?_⟩
  · simp [fields?, hssaved]
  · intro f hf
    rcases List.mem_append.mp hf with hf | hf
    · obtain ⟨p, _, hf⟩ := List.mem_flatMap.mp hf
      exact p.core.writable_fields f hf
    · obtain ⟨i, _, rfl⟩ := List.mem_map.mp hf
      trivial
  · intro rest
    have hprocessors := loadProcessors_fields hs.processors ht.processors hbanks
      (Field.encodeAll ((List.range s.latches.values.size).map fun i => .u8 (s.latches.get i)) ++
        rest)
    have hsize : t.latches.values.size = s.latches.values.size := ht.latches.trans hs.latches.symm
    have hsame : { t with processors := s.processors, latches := s.latches } = s := by
      rw [ht.same]
      exact hs.same.symm
    simp only [load?, htsaved, Option.map_some, Field.encodeAll_append, List.append_assoc,
      hprocessors, loadLatches_fields, foldl_set_range hsize, Array.toArray_toList]
    rw [← htsaved, hsame]

def demos : List System := [mos6502, z80, dual]

theorem instanceOf_demo {base : System} (h : base ∈ demos) : base.InstanceOf base := by
  have hcpu (addr : Nat) :
      ((Memory.ram addressSpace).mapPort addr 0).InstanceOf
        ((Memory.ram addressSpace).mapPort addr 0) :=
    Memory.instanceOf_build addressSpace 1 [.ram 0 addressSpace, .port addr 0]
  have hports : ((Memory.ram Z80.portSpace).mapPort mailboxPort 0).InstanceOf
      ((Memory.ram Z80.portSpace).mapPort mailboxPort 0) :=
    Memory.instanceOf_build Z80.portSpace 1 [.ram 0 Z80.portSpace, .port mailboxPort 0]
  simp only [demos, List.mem_cons, List.not_mem_nil, or_false] at h
  rcases h with rfl | rfl | rfl
  · exact ⟨rfl, .cons ⟨rfl, .mos6502 (hcpu timerAddress), rfl⟩ .nil, rfl⟩
  · exact ⟨rfl, .cons ⟨rfl, .z80 (Memory.instanceOf_ram addressSpace)
      (Memory.instanceOf_ram Z80.portSpace), rfl⟩ .nil, rfl⟩
  · exact ⟨rfl, .cons ⟨rfl, .mos6502 (hcpu mailboxAddress), rfl⟩
      (.cons ⟨rfl, .z80 (Memory.instanceOf_ram addressSpace) hports, rfl⟩ .nil), rfl⟩

/-- A demo saves all its registers, and its memories have a single bank. -/
theorem demo_saves {base : System} (h : base ∈ demos) :
    base.saved = some (List.range base.latches.values.size) ∧
      ∀ p ∈ base.processors.toList, ∀ m ∈ p.core.memories, m.banks ≤ UInt32.size := by
  have hport (size addr : Nat) : ((Memory.ram size).mapPort addr 0).banks = 1 :=
    Memory.banks_build size 1 [.ram 0 size, .port addr 0]
  simp only [demos, List.mem_cons, List.not_mem_nil, or_false] at h
  rcases h with rfl | rfl | rfl <;>
    refine ⟨rfl, ?_⟩ <;>
    simp [mos6502, z80, dual, Core.memories, Mos6502.powerOn, Z80.powerOn, Memory.banks_ram, hport,
      UInt32.size]

end System

/-- Snapshots are exact. Between instances of a demo, and between processors over memories that
were laid out by the same operations, saving does not fail, loading reads just what was saved and
ends in the state that was saved, and what runs from there runs the same. A processor on its own
does not hold the registers behind its ports; they come from whatever it is connected to. -/
theorem snapshot_exact :
    (∀ base ∈ System.demos, ∀ s t : System, s.InstanceOf base → t.InstanceOf base →
      ∃ fs, s.fields? = some fs ∧ (({} : Writer).putAll fs).error = none ∧
        ∀ rest, ∃ u,
          t.load? (Reader.ofBytes ((({} : Writer).putAll fs).sink.bytes.toList ++ rest)) =
            some (u, Reader.ofBytes rest) ∧
          u = s ∧ ∀ turns, u.run turns = s.run turns) ∧
    (∀ size banks ops, banks ≤ UInt32.size → ∀ s t : Mos6502,
      s.mem.InstanceOf (Memory.build size banks ops) →
      t.mem.InstanceOf (Memory.build size banks ops) →
      (({} : Writer).putAll s.fields).error = none ∧
        ∀ rest, ∃ u,
          t.load (Reader.ofBytes ((({} : Writer).putAll s.fields).sink.bytes.toList ++ rest)) =
            (u, Reader.ofBytes rest) ∧
          u = { s with latches := t.latches } ∧
          ∀ l n,
            Mos6502.step^[n] { u with latches := l } = Mos6502.step^[n] { s with latches := l }) ∧
    (∀ size banks ops portSize portBanks portOps, banks ≤ UInt32.size → portBanks ≤ UInt32.size →
      ∀ s t : Z80,
      s.mem.InstanceOf (Memory.build size banks ops) →
      t.mem.InstanceOf (Memory.build size banks ops) →
      s.ports.InstanceOf (Memory.build portSize portBanks portOps) →
      t.ports.InstanceOf (Memory.build portSize portBanks portOps) →
      (({} : Writer).putAll s.fields).error = none ∧
        ∀ rest, ∃ u,
          t.load (Reader.ofBytes ((({} : Writer).putAll s.fields).sink.bytes.toList ++ rest)) =
            (u, Reader.ofBytes rest) ∧
          u = { s with latches := t.latches } ∧
          ∀ l n, Z80.step^[n] { u with latches := l } = Z80.step^[n] { s with latches := l }) := by
  have hbuild (size banks : Nat) (ops : List Memory.Mapping) (h : banks ≤ UInt32.size) :
      (Memory.build size banks ops).banks ≤ UInt32.size := by
    have hone : 1 ≤ UInt32.size := by decide
    rw [Memory.banks_build]
    omega
  refine ⟨?_, ?_, ?_⟩
  · intro base hbase s t hs ht
    obtain ⟨hsaved, hbanks⟩ := System.demo_saves hbase
    obtain ⟨fs, hfs, hwritable, hload⟩ := System.fields_load hs ht hsaved hbanks
    refine ⟨fs, hfs, ?_, ?_⟩
    · rw [Writer.putAll_empty hwritable, Writer.error_holding]
    · intro rest
      refine ⟨s, ?_, rfl, fun _ => rfl⟩
      rw [Writer.putAll_empty hwritable, Writer.bytes_holding, hload]
  · intro size banks ops hbanks s t hs ht
    rw [Writer.putAll_empty s.writable_fields]
    refine ⟨rfl, ?_⟩
    intro rest
    exact ⟨_, Mos6502.load_fields hs ht (hbuild size banks ops hbanks) rest, rfl, fun _ _ => rfl⟩
  · intro size banks ops portSize portBanks portOps hbanks hportBanks s t hs ht hsp htp
    rw [Writer.putAll_empty s.writable_fields]
    refine ⟨rfl, ?_⟩
    intro rest
    exact ⟨_, Z80.load_fields hs ht (hbuild size banks ops hbanks) hsp htp
      (hbuild portSize portBanks portOps hportBanks) rest, rfl, fun _ _ => rfl⟩

/-- A dual system that has run restores into a fresh one, and processors over two banks, one of
which shares storage with the other, restore into ones that have the other bank selected. -/
theorem snapshot_exact_moved :
    let ops : List Memory.Mapping := [.ram 0 4, .rom 4 [7], .bank 1, .shared 2 0]
    let mem := Memory.build 8 2 ops
    let moved := System.dual.run [.processor 0, .processor 1]
    let cpu : Mos6502 := { Mos6502.powerOn mem {} with a := 5 }
    let z80 : Z80 := { Z80.powerOn mem mem {} with im := 2 }
    (∃ fs u, moved.fields? = some fs ∧
      System.dual.load? (Reader.ofBytes ((({} : Writer).putAll fs).sink.bytes.toList ++ [1])) =
        some (u, Reader.ofBytes [1]) ∧ u = moved) ∧
    ((Mos6502.powerOn (mem.setBank 0) {}).load (Reader.ofBytes
      ((({} : Writer).putAll cpu.fields).sink.bytes.toList ++ []))).1.a = 5 ∧
    ((Z80.powerOn (mem.setBank 0) mem {}).load (Reader.ofBytes
      ((({} : Writer).putAll z80.fields).sink.bytes.toList ++ []))).1.im = 2 := by
  intro ops mem moved cpu z80
  have hdual : System.dual ∈ System.demos := by simp [System.demos]
  have hmem : mem.InstanceOf mem := Memory.instanceOf_build 8 2 ops
  obtain ⟨hdemos, hcpu, hz80⟩ := snapshot_exact
  refine ⟨?_, ?_, ?_⟩
  · have hbase := System.instanceOf_demo hdual
    obtain ⟨fs, hfs, -, hload⟩ := hdemos _ hdual moved System.dual (hbase.run _) hbase
    obtain ⟨u, hu, hsame, -⟩ := hload [1]
    exact ⟨fs, u, hfs, hu, hsame⟩
  · obtain ⟨-, hload⟩ := hcpu 8 2 ops (by decide) cpu (Mos6502.powerOn (mem.setBank 0) {}) hmem
      (hmem.setBank 0)
    obtain ⟨u, hu, hsame, -⟩ := hload []
    rw [hu, hsame]
  · obtain ⟨-, hload⟩ := hz80 8 2 ops 8 2 ops (by decide) (by decide) z80
      (Z80.powerOn (mem.setBank 0) mem {}) hmem (hmem.setBank 0) hmem hmem
    obtain ⟨u, hu, hsame, -⟩ := hload []
    rw [hu, hsame]

end EightBit
