import EightBit.Proofs.Restore
import EightBit.Proofs.Z80.Interrupts

/-!
The interrupt modes that a Z80 gets into.

There are three of them. Instructions, a reset and the editor select none but these. A stream that a
state is restored from has the mode as one of its bytes, which is taken over as it stands, so the
mode stays legal exactly as long as that byte does.
-/

namespace EightBit

namespace Reader

variable {bytes : List UInt8} {n : Nat} {r : Reader}

/-- What is left is the stream from this position on, unless reading has failed. -/
def At (bytes : List UInt8) (n : Nat) (r : Reader) : Prop :=
  r.error = none → r.rest = bytes.drop n

theorem at_ofBytes (bytes : List UInt8) : (ofBytes bytes).At bytes 0 := fun _ => rfl

theorem At.take (h : r.At bytes n) (k : Nat) : (r.take k).2.At bytes (n + k) := by
  unfold Reader.take
  split
  · next e herror =>
    intro hsound
    rw [herror] at hsound
    contradiction
  · next hsound =>
    simp only
    split
    · intro _
      rw [h hsound, List.drop_drop]
    · nofun

theorem At.u8 (h : r.At bytes n) : r.u8.2.At bytes (n + 1) := h.take 1

theorem At.u16 (h : r.At bytes n) : r.u16.2.At bytes (n + 2) := h.take 2

theorem At.bool (h : r.At bytes n) : r.bool.2.At bytes (n + 1) := by
  unfold Reader.bool
  simp only
  split
  · exact h.u8
  · split
    · exact h.u8
    · nofun

theorem error_of_take {k : Nat} (h : (r.take k).2.error = none) : r.error = none := by
  cases herror : r.error with
  | none => rfl
  | some e =>
    rw [take_of_error herror, herror] at h
    contradiction

theorem error_of_u8 (h : r.u8.2.error = none) : r.error = none := error_of_take h

theorem error_of_bool (h : r.bool.2.error = none) : r.error = none := by
  cases herror : r.error with
  | none => rfl
  | some e =>
    have hbool : (r.field .bool).2 = r := congrArg Prod.snd (field_of_error herror .bool)
    have hstays : r.bool.2 = r := hbool
    rw [hstays, herror] at h
    contradiction

/-- A byte that is read without a failure is the one at the position. -/
theorem At.u8_fst (h : r.At bytes n) (hsound : r.u8.2.error = none) :
    r.u8.1 = bytes.getD n 0 := by
  have hr : r = ofBytes (bytes.drop n) := by
    have herror := error_of_u8 hsound
    rw [ofBytes, ← h herror, ← herror]
  rw [hr] at hsound ⊢
  rw [List.getD_eq_getElem?_getD, ← Nat.add_zero n, ← List.getElem?_drop, Nat.add_zero]
  cases hrest : bytes.drop n with
  | nil =>
    rw [hrest] at hsound
    contradiction
  | cons v rest => exact congrArg Prod.fst (u8_ofBytes v rest)

end Reader

theorem Memory.error_of_load {m : Memory} {r : Reader} (h : (m.load r).2.error = none) :
    r.error = none := by
  cases herror : r.error with
  | none => rfl
  | some e =>
    have hstays : (Entry.loadAll m.format r).2 = r := by rw [Entry.loadAll_of_error herror]
    rw [m.loadAll_format] at hstays
    rw [hstays, herror] at h
    contradiction

namespace Z80

abbrev modeOffset : Nat := 28

/-- A restore that ends without an error leaves the mode that the stream has. -/
theorem im_load {s : Z80} {bytes : List UInt8}
    (h : (s.load (Reader.ofBytes bytes)).2.error = none) :
    (s.load (Reader.ofBytes bytes)).1.im = bytes.getD modeOffset 0 := by
  -- Twelve words, two bytes and two truth values come before the mode.
  have hstart := Reader.at_ofBytes bytes
  have hat := hstart.u16.u16.u16.u16.u16.u16.u16.u16.u16.u16.u16.u16.u8.u8.bool.bool
  simp only [load] at h ⊢
  exact hat.u8_fst (Reader.error_of_bool (Memory.error_of_load (Memory.error_of_load h)))

/-- What can happen to a Z80 that is also restored from streams. -/
inductive Incident where
  | act (act : Act)
  | load (bytes : List UInt8)

def after (s : Z80) : Incident → Z80
  | .act act => s.act act
  | .load bytes => (s.load (Reader.ofBytes bytes)).1

def Restores : Z80 → List Incident → Prop
  | _, [] => True
  | s, .act act :: incidents => Restores (s.act act) incidents
  | s, .load bytes :: incidents =>
    (s.load (Reader.ofBytes bytes)).2.error = none ∧ Restores (s.after (.load bytes)) incidents

def LegalModes : Z80 → List Incident → Prop
  | s, [] => s.im ≤ 2
  | s, incident :: incidents => s.im ≤ 2 ∧ LegalModes (s.after incident) incidents

theorem interruptMode_le (y : Nat) : interruptMode y ≤ 2 := by
  unfold interruptMode
  split <;> decide

theorem im_step {s : Z80} (hs : s.im ≤ 2) : s.step.im ≤ 2 := by
  have hcontrols := controls_step s
  have him : s.step.im = s.step.control.im := rfl
  rw [him]
  generalize s.step.control = c at hcontrols ⊢
  cases hcontrols with
  | selects y _ => exact interruptMode_le y
  | _ => exact hs

theorem clamped_le (v : UInt8) : min v 2 ≤ 2 := by
  have hmin : min v 2 = if v ≤ 2 then v else 2 := rfl
  rw [hmin]
  split
  · assumption
  · decide

theorem keeps_legal_table (k : RegisterClass) : ∀ e ∈ table k, e.2.Keeps fun s => s.im ≤ 2 := by
  cases k with
  | register =>
    simp only [table, registers, List.forall_mem_cons, Accessor.Keeps]
    and_intros
    all_goals first
      | exact fun _ _ h => h
      | exact List.forall_mem_nil _
      | exact fun _ v _ => clamped_le v
  | flag =>
    simp only [table, flags, flagEntry, List.forall_mem_cons, Accessor.Keeps]
    and_intros
    all_goals first | exact fun _ _ h => h | exact List.forall_mem_nil _

/-- Whatever happens except for a restore leaves the mode legal. -/
theorem im_act {s : Z80} (hs : s.im ≤ 2) (act : Act) : (s.act act).im ≤ 2 := by
  cases act with
  | step => exact im_step hs
  | irq data =>
    have him : (s.irq data).im = s.im := congrArg Control.im (control_irq s data)
    rwa [Z80.act, him]
  | nmi =>
    have him : s.nmi.im = s.im := congrArg Control.im (control_nmi s)
    rwa [Z80.act, him]
  | reset => exact UInt8.zero_le
  | edit k name value =>
    exact edit_keeps (P := fun s => s.im ≤ 2) k name value
      (fun e he _ => keeps_legal_table k e he) hs
  | jump addr => exact hs
  | write addr v => exact hs
  | writePort port v => exact hs

theorem LegalModes.head {s : Z80} {incidents : List Incident} (h : s.LegalModes incidents) :
    s.im ≤ 2 := by
  cases incidents with
  | nil => exact h
  | cons incident incidents => exact h.1

/-- Where all restores end without an error, the mode is legal in every state exactly if it is in
every stream. -/
theorem legalModes_iff {s : Z80} {incidents : List Incident} (hs : s.im ≤ 2)
    (h : s.Restores incidents) : s.LegalModes incidents ↔
      ∀ bytes, .load bytes ∈ incidents → bytes.getD modeOffset 0 ≤ 2 := by
  induction incidents generalizing s with
  | nil => simpa [LegalModes] using hs
  | cons incident incidents ih =>
    have hlegal : s.LegalModes (incident :: incidents) ↔ (s.after incident).LegalModes incidents :=
      and_iff_right hs
    rw [hlegal]
    cases incident with
    | act act =>
      have hact : (s.after (.act act)).im ≤ 2 := im_act hs act
      rw [ih hact h]
      simp
    | load bytes =>
      obtain ⟨hsound, hrest⟩ := h
      have him : (s.after (.load bytes)).im = bytes.getD modeOffset 0 := im_load hsound
      have hstreams : (∀ stream, .load stream ∈ Incident.load bytes :: incidents →
            stream.getD modeOffset 0 ≤ 2) ↔
          bytes.getD modeOffset 0 ≤ 2 ∧
            ∀ stream, .load stream ∈ incidents → stream.getD modeOffset 0 ≤ 2 := by
        simp
      rw [hstreams, ← him]
      by_cases hload : (s.after (.load bytes)).im ≤ 2
      · rw [ih hload hrest]
        exact (and_iff_right hload).symm
      · exact iff_of_false (fun hmodes => hload hmodes.head) fun hmodes => hload hmodes.1

/-- From power-on, with all restores ending without an error, the mode is legal in every state
exactly if the mode in every stream is. -/
theorem modes_follow_streams (mem ports : Memory) (latches : Latches) (incidents : List Incident)
    (h : (powerOn mem ports latches).Restores incidents) :
    (powerOn mem ports latches).LegalModes incidents ↔
      ∀ bytes, .load bytes ∈ incidents → bytes.getD modeOffset 0 ≤ 2 :=
  legalModes_iff UInt8.zero_le h

/-- A stream for a Z80 with sixteen bytes of memory, all zero up to the mode. -/
def streamOf (mode : UInt8) : List UInt8 :=
  List.replicate modeOffset 0 ++ mode :: List.replicate 25 0

/-- A mode from an instruction, one from the editor and one from a stream are all legal. -/
theorem modes_follow_legal_stream :
    (powerOn (Memory.ram 16) (Memory.empty portSpace 1) {}).LegalModes
      [.act (.write 0 0xed), .act (.write 1 0x5e), .act .step, .load (streamOf 1),
        .act (.edit .register "im" (.u8 200))] := by
  have hrestores : (powerOn (Memory.ram 16) (Memory.empty portSpace 1) {}).Restores
      [.act (.write 0 0xed), .act (.write 1 0x5e), .act .step, .load (streamOf 1),
        .act (.edit .register "im" (.u8 200))] :=
    ⟨by decide +kernel, trivial⟩
  rw [modes_follow_streams _ _ _ _ hrestores]
  simp [streamOf]

/-- A restore ends without an error and takes over a mode that there is not. -/
theorem mode_seven_is_restored :
    let s := powerOn (Memory.ram 16) (Memory.empty portSpace 1) {}
    (s.load (Reader.ofBytes (streamOf 7))).2.error = none ∧
      (s.load (Reader.ofBytes (streamOf 7))).1.im = 7 := by
  decide +kernel

end Z80

end EightBit
