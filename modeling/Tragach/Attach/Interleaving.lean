import Tragach.Attach.Lifecycle
import Tragach.Library.Outlines

/-! # The attach programs one access at a time

A constructor inserts its record before it submits the `Opened` event, and a release
removes the record before it submits the `Closed` event. Programs about other attachments
may come in between.
-/

namespace Tragach.Attach

open Bpf Common Library

inductive Access where
  | liveInsert (p : UInt64) (live : LiveAttachment) (evicted : List UInt64)
  | liveGet (p : UInt64)
  | liveRemove (p : UInt64)
  | submit (ev : AttachEvent)

/-- What each access answers; nothing follows an insert whose error is returned. -/
@[reducible] def Answer : Access → Type
  | .liveInsert _ _ _ => Bool
  | .liveGet _ => Option LiveAttachment
  | _ => Unit

variable {cap : Capacity}

def exec (cap : Capacity) : Exec (State cap) Answer
  | .liveInsert p live evicted, s =>
      (s.live.accepts p evicted, { s with live := s.live.upsert p live evicted })
  | .liveGet p, s => (s.live.get p, s)
  | .liveRemove p, s => ((), { s with live := s.live.remove p })
  | .submit ev, s => ((), { s with events := ev :: s.events })

/-- `EVENTS.reserve`, the stores to the slot and `submit`; a full ring hands out no slot. -/
def emitBody (ctx : Ctx) (ev : AttachEvent) : Prog Answer :=
  match ctx.slot with
  | some _ => .access (.submit ev) fun _ => .done
  | none => .done

def attachCtorBody (ctx : Ctx) : Prog Answer :=
  if ctx.regs.rdi = 0 then .done
  else
    .access (.liveInsert ctx.regs.rdi (liveOf ctx) ctx.evicted) fun (inserted : Bool) =>
      if inserted = true then emitBody ctx (openedEvent ctx) else .done

def releaseAttachmentBody (ctx : Ctx) : Prog Answer :=
  if ctx.regs.rsi = 0 then .done
  else
    .access (.liveGet ctx.regs.rsi) fun (live : Option LiveAttachment) =>
      match live with
      | none => .done
      | some live =>
          .access (.liveRemove ctx.regs.rsi) fun _ => emitBody ctx (closedEvent ctx live)

def body : Action → Prog Answer
  | .ctor ctx => attachCtorBody ctx
  | .release ctx => releaseAttachmentBody ctx

theorem run_emitBody (s : State cap) (ctx : Ctx) (ev : AttachEvent) :
    (emitBody ctx ev).run (exec cap) s =
      { s with events := (submit ctx ev).toList ++ s.events } := by
  unfold emitBody submit
  cases ctx.slot <;> rfl

theorem run_body (s : State cap) (a : Action) : (body a).run (exec cap) s = fire s a := by
  cases a with
  | ctor c =>
      rw [fire, final_ctor, body, attachCtorBody]
      by_cases null : c.regs.rdi = 0
      · simp [null]
      · cases room : s.live.accepts c.regs.rdi c.evicted with
        | false => simp [null, exec, room, LruHashMap.upsert_of_not_accepts room]
        | true => simp [null, exec, room, run_emitBody]
  | release c =>
      rw [fire, final_release, body, releaseAttachmentBody]
      by_cases null : c.regs.rsi = 0
      · simp [null]
      · cases entry : s.live.get c.regs.rsi with
        | none => simp [null, exec, entry]
        | some live => simp [null, exec, entry, run_emitBody]

abbrev running (cap : Capacity) :
    System (Threads (State cap) UInt32 Action Answer) (ThreadStep UInt32 Action) :=
  interleaved body (exec cap) ⟨.empty, []⟩

theorem serial_eq_tracer (h : History) :
    (serial body (exec cap) ⟨.empty, []⟩).run h = (tracer cap).run h := by
  induction h with
  | nil => rfl
  | cons a h ih => exact (run_body _ a).trans (congrArg (fire · a) ih)

/-! ## Stages -/

def Action.attachment : Action → Option UInt64
  | .ctor ctx => if ctx.regs.rdi = 0 then none else some ctx.regs.rdi
  | .release ctx => if ctx.regs.rsi = 0 then none else some ctx.regs.rsi

/-- There is a slot for the event of a constructor. -/
def OpeningSeen : Action → Prop
  | .ctor ctx => ctx.slot.isSome = true
  | .release _ => True

instance : DecidablePred OpeningSeen
  | .ctor ctx => inferInstanceAs (Decidable (ctx.slot.isSome = true))
  | .release _ => .isTrue trivial

/-- A session of `p` that began at this time is open in the stream. -/
def Session (s : State cap) (p ts : UInt64) : Prop :=
  ∃ o, (sessions mark).replay s.events p = some o ∧ o.tsNs = ts

def Held (p : UInt64) (s : State cap) : Prop :=
  ∀ live ∈ s.live.get p, Session s p live.openTsNs

/-- What holds while a program has `rest` still to do. A record may have been dropped in the
meantime, but never replaced. -/
inductive Stage (a : Action) (rest : Prog Answer) (s : State cap) : Prop
  | begun {p : UInt64} (about : a.attachment = some p) (seen : OpeningSeen a) (held : Held p s)
      (left : rest = body a)
  | inserted {ctx : Ctx} (ctor : a = .ctor ctx) (seen : ctx.slot.isSome = true)
      (own : ∀ live ∈ s.live.get ctx.regs.rdi, live = liveOf ctx)
      (left : rest = emitBody ctx (openedEvent ctx))
  | found {ctx : Ctx} (release : a = .release ctx) {live : LiveAttachment}
      (session : Session s ctx.regs.rsi live.openTsNs)
      (left : rest = .access (.liveRemove ctx.regs.rsi) fun _ => emitBody ctx (closedEvent ctx live))
  | removed {ctx : Ctx} (release : a = .release ctx) {live : LiveAttachment}
      (session : Session s ctx.regs.rsi live.openTsNs) (gone : s.live.get ctx.regs.rsi = none)
      (left : rest = emitBody ctx (closedEvent ctx live))
  | returned {p : UInt64} (about : a.attachment = some p) (held : Held p s) (left : rest = .done)

/-- A close gives the time since the event that opened its session, 0 when the clock went
back. -/
def Times (o e : AttachEvent) : Prop := e.durationNs = saturatingSub e.tsNs o.tsNs

section

variable {a : Action} {p p' : UInt64} {ctx : Ctx} {ev : AttachEvent} {rest : Prog Answer}
  {op : Access} {next : Answer op → Prog Answer} {s s' : State cap}

theorem attachment_ctor (about : (Action.ctor ctx).attachment = some p) :
    ctx.regs.rdi = p ∧ ctx.regs.rdi ≠ 0 := by
  rw [Action.attachment] at about
  split at about
  next => cases about
  next null => exact ⟨Option.some.inj about, null⟩

theorem attachment_release (about : (Action.release ctx).attachment = some p) :
    ctx.regs.rsi = p ∧ ctx.regs.rsi ≠ 0 := by
  rw [Action.attachment] at about
  split at about
  next => cases about
  next null => exact ⟨Option.some.inj about, null⟩

theorem body_of_null (none : a.attachment = none) : body a = .done := by
  cases a with
  | ctor c =>
      rw [Action.attachment] at none
      split at none
      next null => exact if_pos null
      next => cases none
  | release c =>
      rw [Action.attachment] at none
      split at none
      next null => exact if_pos null
      next => cases none

theorem access_of_emitBody (left : .access op next = emitBody ctx ev) :
    ∃ same : op = .submit ev, ∀ answer, next (same ▸ answer) = .done := by
  unfold emitBody at left
  split at left
  · cases left
    exact ⟨rfl, fun _ => rfl⟩
  · cases left

def Access.About (p : UInt64) : Access → Prop
  | .liveInsert q _ _ | .liveGet q | .liveRemove q => q = p
  | .submit ev => ev.attachmentPtr = p

/-- The first access of a program looks at the map or inserts into it. -/
theorem access_of_body (about : a.attachment = some p) (left : .access op next = body a) :
    op.About p ∧ ∀ (cap : Capacity) (s : State cap), (exec cap op s).2.events = s.events := by
  cases a with
  | ctor c =>
      obtain ⟨own, valid⟩ := attachment_ctor about
      rw [body, attachCtorBody, if_neg valid] at left
      cases left
      exact ⟨own, fun _ _ => rfl⟩
  | release c =>
      obtain ⟨own, valid⟩ := attachment_release about
      rw [body, releaseAttachmentBody, if_neg valid] at left
      cases left
      exact ⟨own, fun _ _ => rfl⟩

theorem body_ne_done (about : a.attachment = some p) : body a ≠ .done := by
  cases a with
  | ctor c =>
      rw [body, attachCtorBody, if_neg (attachment_ctor about).2]
      exact fun same => by cases same
  | release c =>
      rw [body, releaseAttachmentBody, if_neg (attachment_release about).2]
      exact fun same => by cases same

theorem Stage.about (stage : Stage a (.access op next) s) (about : a.attachment = some p) :
    op.About p := by
  cases stage with
  | begun _ _ _ left => exact (access_of_body about left).1
  | inserted ctor _ _ left =>
      subst ctor
      obtain ⟨rfl, -⟩ := access_of_emitBody left
      exact (attachment_ctor about).1
  | found release _ left =>
      subst release
      cases left
      exact (attachment_release about).1
  | removed release _ _ left =>
      subst release
      obtain ⟨rfl, -⟩ := access_of_emitBody left
      exact (attachment_release about).1
  | returned _ _ left => cases left

/-! ### Other attachments -/

/-- As far as `p` is concerned its record may have been dropped and nothing else happened. -/
structure Spared (p : UInt64) (s s' : State cap) : Prop where
  live : s'.live.get p = s.live.get p ∨ s'.live.get p = none
  session : (sessions mark).replay s'.events p = (sessions mark).replay s.events p

theorem spared_of_about (about : op.About p) (other : p' ≠ p) (s : State cap) :
    Spared p' s (exec cap op s).2 := by
  cases op with
  | liveInsert q live evicted =>
      have keys : p' ≠ q := fun same => other (same.trans about)
      refine ⟨?_, rfl⟩
      cases room : s.live.accepts q evicted with
      | false => exact .inl (by rw [exec, LruHashMap.upsert_of_not_accepts room])
      | true =>
          rw [exec, LruHashMap.get_upsert_of_accepts room, if_neg keys]
          split
          · exact .inr rfl
          · exact .inl rfl
  | liveGet q => exact ⟨.inl rfl, rfl⟩
  | liveRemove q =>
      have keys : p' ≠ q := fun same => other (same.trans about)
      exact ⟨.inl ((LruHashMap.get_remove ..).trans (if_neg keys)), rfl⟩
  | submit ev =>
      have foreign : ev.attachmentPtr ≠ p' := fun same => other (same.symm.trans about)
      exact ⟨.inl rfl, replay_sessions_of_other (mark_of_other foreign)⟩

theorem Spared.mem_live (spared : Spared p s s') {live : LiveAttachment}
    (mem : live ∈ s'.live.get p) : live ∈ s.live.get p := by
  rcases spared.live with same | none
  · rwa [same] at mem
  · rw [none] at mem
    cases mem

theorem Spared.open (spared : Spared p s s') {ts : UInt64} (session : Session s p ts) :
    Session s' p ts := by
  rwa [Session, spared.session]

theorem Spared.held (spared : Spared p s s') (held : Held p s) : Held p s' :=
  fun live mem => spared.open (held live (spared.mem_live mem))

theorem Spared.stage (about : a.attachment = some p) (spared : Spared p s s')
    (stage : Stage a rest s) : Stage a rest s' := by
  cases stage with
  | begun about' seen held left =>
      obtain rfl := Option.some.inj (about.symm.trans about')
      exact .begun about seen (spared.held held) left
  | inserted ctor seen own left =>
      subst ctor
      obtain ⟨rfl, -⟩ := attachment_ctor about
      exact .inserted rfl seen (fun live mem => own live (spared.mem_live mem)) left
  | found release session left =>
      subst release
      obtain ⟨rfl, -⟩ := attachment_release about
      exact .found rfl (spared.open session) left
  | removed release session gone left =>
      subst release
      obtain ⟨rfl, -⟩ := attachment_release about
      refine .removed rfl (spared.open session) ?_ left
      rcases spared.live with same | none
      · rw [same, gone]
      · exact none
  | returned about' held left =>
      obtain rfl := Option.some.inj (about.symm.trans about')
      exact .returned about (spared.held held) left

/-! ### The steps of one program -/

theorem get_remove_self (s : State cap) (p : UInt64) :
    (exec cap (.liveRemove p) s).2.live.get p = none :=
  (LruHashMap.get_remove ..).trans (if_pos rfl)

theorem session_submit (s : State cap) (c : Ctx) :
    Session (exec cap (.submit (openedEvent c)) s).2 c.regs.rdi c.ktime :=
  ⟨openedEvent c, replay_sessions_opens (mark_openedEvent c), rfl⟩

theorem goes_ctor (about : (Action.ctor ctx).attachment = some p) (seen : ctx.slot.isSome = true)
    (held : Held p s) (left : .access op next = attachCtorBody ctx) :
    Stage (.ctor ctx) (next (exec cap op s).1) (exec cap op s).2 := by
  obtain ⟨rfl, valid⟩ := attachment_ctor about
  rw [attachCtorBody, if_neg valid] at left
  cases left
  cases room : s.live.accepts ctx.regs.rdi ctx.evicted with
  | false =>
      refine .returned about ?_ (by simp [exec, room])
      rw [exec, LruHashMap.upsert_of_not_accepts room]
      exact held
  | true =>
      refine .inserted rfl seen (fun live mem => ?_) (by simp [exec, room])
      rw [exec, LruHashMap.get_upsert_of_accepts room, if_pos rfl] at mem
      split at mem
      · cases mem
      · exact (Option.mem_some.mp mem).symm

theorem goes_release (about : (Action.release ctx).attachment = some p) (held : Held p s)
    (left : .access op next = releaseAttachmentBody ctx) :
    Stage (.release ctx) (next (exec cap op s).1) (exec cap op s).2 := by
  obtain ⟨rfl, valid⟩ := attachment_release about
  rw [releaseAttachmentBody, if_neg valid] at left
  cases left
  cases entry : s.live.get ctx.regs.rsi with
  | none => exact .returned about held (by simp [exec, entry])
  | some live => exact .found rfl (held live entry) (by simp [exec, entry])

/-- After each of its accesses a program is at its next stage. -/
theorem Stage.goes (stage : Stage a (.access op next) s) (about : a.attachment = some p) :
    Stage a (next (exec cap op s).1) (exec cap op s).2 := by
  cases stage with
  | begun about' seen held left =>
      obtain rfl := Option.some.inj (about.symm.trans about')
      cases a with
      | ctor c => exact goes_ctor about seen held left
      | release c => exact goes_release about held left
  | @inserted c ctor seen own left =>
      subst ctor
      obtain ⟨rfl, ended⟩ := access_of_emitBody left
      refine .returned about (fun live mem => ?_) (ended ())
      obtain ⟨rfl, -⟩ := attachment_ctor about
      rw [own live mem]
      exact session_submit s c
  | @found c release live session left =>
      subst release
      cases left
      exact .removed rfl session (get_remove_self s c.regs.rsi) rfl
  | removed release session gone left =>
      subst release
      obtain ⟨rfl, ended⟩ := access_of_emitBody left
      refine .returned about (fun live mem => ?_) (ended ())
      obtain ⟨rfl, -⟩ := attachment_release about
      cases gone.symm.trans mem
  | returned _ _ left => cases left

theorem Stage.ends (stage : Stage a .done s) (about : a.attachment = some p) : Held p s := by
  cases stage with
  | begun _ _ _ left => exact absurd left.symm (body_ne_done about)
  | inserted _ seen _ left =>
      unfold emitBody at left
      split at left
      · cases left
      next none => simp [none] at seen
  | found _ _ left => cases left
  | removed release _ gone _ =>
      subst release
      obtain ⟨rfl, -⟩ := attachment_release about
      exact fun live mem => by cases gone.symm.trans mem
  | returned about' held _ =>
      obtain rfl := Option.some.inj (about.symm.trans about')
      exact held

theorem Stage.safe (stage : Stage a (.access op next) s) (about : a.attachment = some p)
    (bracketed : Bracketed mark Times s.events) :
    Bracketed mark Times (exec cap op s).2.events := by
  cases stage with
  | begun _ _ _ left =>
      rw [(access_of_body about left).2]
      exact bracketed
  | @inserted c _ _ _ left =>
      obtain ⟨rfl, -⟩ := access_of_emitBody left
      refine ⟨fun p closes => ?_, bracketed⟩
      rw [mark_openedEvent] at closes
      cases closes
  | found _ _ left =>
      cases left
      exact bracketed
  | @removed c _ live session _ left =>
      obtain ⟨rfl, -⟩ := access_of_emitBody left
      refine ⟨fun p closes => ?_, bracketed⟩
      obtain rfl : c.regs.rsi = p := (mark_closes_iff.mp closes).1
      obtain ⟨o, isOpen, time⟩ := session
      refine ⟨o, isOpen, ?_⟩
      rw [Times, time]
      rfl
  | returned _ _ left => cases left

end

theorem outline : Outline body (exec cap) Action.attachment OpeningSeen Held Stage
    (fun s : State cap => Bracketed mark Times s.events) where
  begins about seen held := .begun about seen held rfl
  nothing := body_of_null
  goes about stage := stage.goes about
  safe about stage bracketed := stage.safe about bracketed
  ends about stage := stage.ends about
  sparesIdle about stage other held := (spared_of_about (stage.about about) other _).held held
  sparesStage about stage about' other stage' :=
    Spared.stage about' (spared_of_about (stage.about about) other _) stage'

/-! ## Interleaved runs -/

/-- No program begins while another about the same attachment is running. -/
abbrev OneAtATime (cap : Capacity) :
    List (ThreadStep UInt32 Action) → ThreadStep UInt32 Action → Prop :=
  NoClash body (exec cap) ⟨.empty, []⟩ (SameKey Action.attachment)

/-- The constructor of 200 drops the record of 100 while the release of 100 has looked it up
and not yet removed it. -/
def evictedInRelease : List (ThreadStep UInt32 Action) :=
  [.advance 7, .advance 8, .advance 7, .advance 8, .advance 7, .advance 8,
    .enter 8 (.ctor { firing 20 { rdi := 200 } with evicted := [100] }),
    .advance 7,
    .enter 7 (.release (firing 30 { rsi := 100 })),
    .advance 7, .advance 7, .advance 7,
    .enter 7 (.ctor (firing 10 { rdi := 100 }))]

example : ((running declared).run evictedInRelease).shared.events.map
    (fun ev => (mark ev, ev.durationNs)) =
      [(some (.closes 100), 20), (some (.opens 200), 0), (some (.opens 100), 0)] := by
  decide +kernel

end Tragach.Attach
