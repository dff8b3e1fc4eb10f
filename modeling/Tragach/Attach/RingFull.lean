import Tragach.Attach.Lifecycle

/-! # A full ring

When the ring is full an event is dropped and nothing else changes: a constructor
whose `Opened` event is dropped still leaves its record, and a release with a slot
then emits a `Closed` event for it. Any reservation and any insert may fail here.
-/

namespace Tragach.Attach

open Bpf Common Library

variable {cap : Capacity}

/-- A release with a slot takes back no record whose constructor had none. -/
def Announced (cap : Capacity) (h : History) : Action → Prop
  | .ctor _ => True
  | .release c => c.slot.isSome = true →
      ∀ o ∈ (records cap).replay h c.regs.rsi, o.slot.isSome = true

instance (h : History) : ∀ a, Decidable (Announced cap h a)
  | .ctor _ => .isTrue trivial
  | .release c =>
      have : Decidable (∀ o ∈ (records cap).replay h c.regs.rsi, o.slot.isSome = true) :=
        Option.decidableForallMem _
      inferInstanceAs (Decidable (c.slot.isSome = true → _))

instance (p : UInt64) (e : AttachEvent) : Decidable (Opened p e) := instDecidableAnd

instance (p : UInt64) (e : AttachEvent) : Decidable (Closed p e) := instDecidableAnd

theorem announced_bracketed {h : History} (law : Lawful (Announced cap) h) :
    Bracketed mark (fun _ _ => True) ((tracer cap).run h).events := by
  refine bracketed_events ?_ law
  intro h a e p announced _ emits closes
  obtain ⟨c, o, rfl, rfl, slot, held, rfl⟩ := closed_emitted emits closes
  exact ⟨openedEvent o, opened_of_record held (announced slot o held), trivial⟩

/-- When no release with a slot takes back the record of a constructor without one, the
closes of a pointer never outnumber its openings, and an opening lies between a close and
the close before it. -/
theorem never_orphaned {h : History} (law : Lawful (Announced cap) h) :
    (∀ p later earlier, ((tracer cap).run h).events = later ++ earlier →
        earlier.countP (Closed p ·) ≤ earlier.countP (Opened p ·)) ∧
      ∀ p later e earlier, ((tracer cap).run h).events = later ++ e :: earlier → Closed p e →
        ∃ between o before, earlier = between ++ o :: before ∧ Opened p o ∧
          ∀ b ∈ between, ¬ Closed p b := by
  have bracketed := announced_bracketed law
  constructor
  · intro p later earlier split
    rw [split] at bracketed
    have counts := bracketed.of_append.closed_le_opened p
    simp only [mark_closes_iff, mark_opens_iff] at counts
    omega
  · intro p later e earlier split closes
    obtain ⟨between, o, before, rest, opens, kept, -⟩ :=
      bracketed.opening split (mark_closes_iff.mpr closes)
    refine ⟨between, o, before, rest, mark_opens_iff.mp opens, fun b mem => ?_⟩
    rw [← mark_closes_iff]
    exact (kept b mem).2

/-- Attachment 100 opens unseen and closes unseen, then opens and closes with a slot. -/
def unseenAttachment : History :=
  [.release (firing 40 { rsi := 100 }),
    .ctor (firing 30 { rdi := 100 }),
    .release (firing 20 { rsi := 100 } none),
    .ctor (firing 10 { rdi := 100 } none)]

theorem unseenAttachment_not_orphaned :
    ∃ between o before, [openedEvent (firing 30 { rdi := 100 })] = between ++ o :: before ∧
      Opened 100 o ∧ ∀ b ∈ between, ¬ Closed 100 b :=
  (never_orphaned (show Lawful (Announced declared) unseenAttachment by decide +kernel)).2 100 []
    (closedEvent (firing 40 { rsi := 100 }) ⟨30, 0, 0⟩) _ (by decide +kernel) ⟨rfl, rfl⟩

/-- The ring is full when attachment 100 is constructed, and has a slot when it is
released. -/
def unseenOpening : History :=
  [.release (firing 20 { rsi := 100 }), .ctor (firing 10 { rdi := 100 } none)]

theorem unseenOpening_orphans_close :
    ((tracer declared).run unseenOpening).events =
        [closedEvent (firing 20 { rsi := 100 }) ⟨10, 0, 0⟩] ∧
      ((tracer declared).run unseenOpening).events.countP (Opened 100 ·) <
        ((tracer declared).run unseenOpening).events.countP (Closed 100 ·) := by
  constructor <;> decide +kernel

end Tragach.Attach
