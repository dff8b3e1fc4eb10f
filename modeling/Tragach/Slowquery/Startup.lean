import Tragach.Slowquery.Printed

/-! # Attaching to a running server

The ten probes are attached one after another while the server runs, so its calls may begin
before the first probe is there, between two of them and after the last. A return probe
fires only for calls that were entered when it was attached already.
-/

namespace Tragach.Slowquery

open Bpf Common Library

/-! ## Probes and calls -/

inductive Hook where
  | entry (f : Fn)
  | exit (f : Fn)
deriving DecidableEq

def attachPair (f : Fn) : List Hook := [.entry f, .exit f]

/-- The probes in the order in which `main` attaches them. -/
def attachOrder : List Hook :=
  [.prepare, .execute, .executeImmediate, .openCursor, .fetchNext].flatMap attachPair

/-- The tracer attaches its next probe, or the server acts. -/
inductive Startup where
  | attach
  | act (a : Action)

def attachments : List Startup → Nat
  | [] => 0
  | .attach :: h => attachments h + 1
  | .act _ :: h => attachments h

def attached (h : List Startup) : List Hook := attachOrder.take (attachments h)

/-- What the server did, seen or not. -/
def actions : List Startup → History
  | [] => []
  | .attach :: h => actions h
  | .act a :: h => a :: actions h

/-- A call in progress: its entry, and which of its two probes were attached at that time. -/
structure Activation where
  entry : Ctx
  entered : Bool
  returns : Bool

def calls : Journal Startup (Fn × UInt32) Activation := fun h e k =>
  match e with
  | .attach => .keep
  | .act (.entry f c) =>
      if k = (f, c.tid) then .put ⟨c, .entry f ∈ attached h, .exit f ∈ attached h⟩ else .keep
  | .act (.exit f c) => if k = (f, c.tid) then .drop else .keep
  | .act (.abandon f t) => if k = (f, t) then .drop else .keep

/-- The probe that fires at an action, if it was attached in time. -/
def probed (h : List Startup) : Action → Option Action
  | .entry f c => if .entry f ∈ attached h then some (.entry f c) else none
  | .exit f c =>
      if (calls.replay h (f, c.tid)).any Activation.returns = true then some (.exit f c) else none
  | .abandon _ _ => none

def firings : List Startup → History
  | [] => []
  | .attach :: h => firings h
  | .act a :: h => (probed h a).toList ++ firings h

/-! ## What a run owes -/

/-- The call in progress, if its return will be probed. -/
def followed (f : Fn) (t : UInt32) (h : List Startup) : Option Ctx :=
  (calls.replay h (f, t)).bind fun x => if x.returns = true then some x.entry else none

/-- The statement that the latest followed prepare filed under a request. -/
def filed : Journal Startup UInt64 PreparedStatement := fun h e r =>
  match e with
  | .act (.exit .prepare c) =>
      match followed .prepare c.tid h with
      | some e =>
          if c.regs.rax = 0 then .keep
          else LruHashMap.insertOp true c.evicted c.regs.rax (Call.statement ⟨e, c⟩) r
      | none => .keep
  | _ => .keep

/-- The latest followed `openCursor` that returned a cursor no followed fetch has ended. -/
def opened : Journal Startup UInt64 Ctx := fun h e k =>
  match e with
  | .act (.exit .openCursor c) =>
      match followed .openCursor c.tid h with
      | some e =>
          if c.regs.rax = 0 then .keep
          else LruHashMap.insertOp true c.evicted c.regs.rax e k
      | none => .keep
  | .act (.exit .fetchNext c) =>
      match followed .fetchNext c.tid h with
      | some e => if c.regs.rax = 1 ∧ k = e.regs.rdi then .drop else .keep
      | none => .keep
  | _ => .keep

def dueEvent (h : List Startup) : Action → Option SlowQueryEvent
  | .exit .execute c =>
      (followed .execute c.tid h).map fun e => Call.event ⟨e, c⟩ (filed.replay h e.regs.rdx)
  | .exit .executeImmediate c =>
      (followed .executeImmediate c.tid h).map fun e => Call.immediateEvent ⟨e, c⟩
  | .exit .fetchNext c =>
      if c.regs.rax = 1 then
        (followed .fetchNext c.tid h).bind fun e =>
          (opened.replay h e.regs.rdi).map fun o =>
            Call.event ⟨o, c⟩ (filed.replay h o.regs.rdi)
      else none
  | _ => none

/-- The events due in a run for which the ring had room, oldest first. -/
def dueEvents : List Startup → List SlowQueryEvent
  | [] => []
  | .attach :: h => dueEvents h
  | .act a :: h => dueEvents h ++ if a.reserved then (dueEvent h a).toList else []

/-! ## The runs considered -/

/-- What the server does obeys the laws of its calls, probed or not; the inserts of the probes
that fire succeed. -/
def Attaching (L : Limits) (h : List Startup) : Startup → Prop
  | .attach => True
  | .act a => Timely (actions h) a ∧ Alternating (actions h) a ∧ NonNull a ∧
      ∀ b ∈ probed h a, InsertSucceeds ((tracer L).run (firings h)) b

instance (L : Limits) (h : List Startup) : ∀ e, Decidable (Attaching L h e)
  | .attach => .isTrue trivial
  | .act a =>
      have : Decidable (∀ b ∈ probed h a, InsertSucceeds ((tracer L).run (firings h)) b) :=
        Option.decidableForallMem (probed h a)
      inferInstanceAs (Decidable (Timely (actions h) a ∧ Alternating (actions h) a ∧ NonNull a ∧
        ∀ b ∈ probed h a, InsertSucceeds ((tracer L).run (firings h)) b))

variable {L : Limits}

section

variable {h : List Startup} {a : Action} {f : Fn} {t : UInt32} {x : Activation} {e : Ctx}

/-! ## The calls in progress -/

/-- Of the two probes of a function the one on entry is attached first. -/
theorem entry_attached (late : .exit f ∈ attached h) : .entry f ∈ attached h := by
  have order : ∀ n ≤ attachOrder.length,
      .exit f ∈ attachOrder.take n → .entry f ∈ attachOrder.take n := by
    cases f <;> decide
  unfold attached at late ⊢
  rw [List.take_eq_take_min] at late ⊢
  exact order _ (min_le_right ..) late

theorem calls_put {s : Startup} (put : calls h s (f, t) = .put x) :
    ∃ c, c.tid = t ∧ x = ⟨c, .entry f ∈ attached h, .exit f ∈ attached h⟩ := by
  match s with
  | .attach => cases put
  | .act (.entry g c) =>
      simp only [calls] at put
      split at put
      next key =>
          cases put
          cases key
          exact ⟨c, rfl, rfl⟩
      next => cases put
  | .act (.exit g c) => simp only [calls] at put; split at put <;> cases put
  | .act (.abandon g u) => simp only [calls] at put; split at put <;> cases put

theorem entered_of_returns (found : calls.replay h (f, t) = some x) (returns : x.returns = true) :
    x.entered = true := by
  obtain ⟨post, s, pre, -, put, -⟩ := Journal.replay_eq_some_iff.mp found
  obtain ⟨c, -, rfl⟩ := calls_put put
  exact decide_eq_true (entry_attached (of_decide_eq_true returns))

theorem entry_calls (h : List Startup) (f : Fn) (t : UInt32) :
    (calls.replay h (f, t)).map Activation.entry = inProgress f t (actions h) := by
  induction h with
  | nil => rfl
  | cons e h ih =>
      rw [Journal.replay_cons]
      match e with
      | .attach => exact ih
      | .act (.entry g c) =>
          rw [actions, inProgress, Journal.replay_cons, ← inProgress, ← ih]
          simp only [calls, activations]
          split <;> rfl
      | .act (.exit g c) =>
          rw [actions, inProgress, Journal.replay_cons, ← inProgress, ← ih]
          simp only [calls, activations]
          split <;> rfl
      | .act (.abandon g u) =>
          rw [actions, inProgress, Journal.replay_cons, ← inProgress, ← ih]
          simp only [calls, activations]
          split <;> rfl

/-! ## What the tracer notices -/

/-- A call whose return is not probed is, for the tracer, left by an exception. -/
def noticed (h : List Startup) : Action → Option Action
  | .entry f c => if .entry f ∈ attached h then some (.entry f c) else none
  | .exit f c =>
      (calls.replay h (f, c.tid)).bind fun x =>
        if x.returns = true then some (.exit f c)
        else if x.entered = true then some (.abandon f c.tid) else none
  | .abandon f t =>
      (calls.replay h (f, t)).bind fun x =>
        if x.entered = true then some (.abandon f t) else none

def seen : List Startup → History
  | [] => []
  | .attach :: h => seen h
  | .act a :: h => (noticed h a).toList ++ seen h

theorem fire_noticed (s : State L) (h : List Startup) (a : Action) :
    (noticed h a).elim s (fire s) = (probed h a).elim s (fire s) := by
  cases a with
  | entry f c => rfl
  | exit f c =>
      simp only [noticed, probed]
      cases calls.replay h (f, c.tid) with
      | none => rfl
      | some x =>
          simp only [Option.bind_some, Option.any_some]
          by_cases returns : x.returns = true
          · simp only [if_pos returns]
          · simp only [if_neg returns]
            split <;> rfl
  | abandon f t =>
      simp only [noticed, probed]
      cases calls.replay h (f, t) with
      | none => rfl
      | some x =>
          simp only [Option.bind_some]
          split <;> rfl

theorem run_toList (a : Option Action) (h : History) :
    (tracer L).run (a.toList ++ h) = a.elim ((tracer L).run h) (fire ((tracer L).run h)) := by
  cases a <;> rfl

theorem run_seen (h : List Startup) : (tracer L).run (seen h) = (tracer L).run (firings h) := by
  induction h with
  | nil => rfl
  | cons e h ih =>
      cases e with
      | attach => exact ih
      | act a => rw [seen, firings, run_toList, run_toList, ih, fire_noticed]

/-- The call in progress, if its entry was probed. -/
def known (f : Fn) (t : UInt32) (h : List Startup) : Option Ctx :=
  (calls.replay h (f, t)).bind fun x => if x.entered = true then some x.entry else none

inductive Action.Ends : Action → Fn → UInt32 → Prop where
  | returned (f : Fn) (c : Ctx) : (Action.exit f c).Ends f c.tid
  | raised (f : Fn) (t : UInt32) : (Action.abandon f t).Ends f t

/-- The end of a call that the tracer knows is noticed in one of two ways. -/
theorem noticed_end (ends : a.Ends f t) :
    (known f t h = none ∧ noticed h a = none) ∨
      ∃ b, noticed h a = some b ∧ (b = .abandon f t ∨ b = a) := by
  unfold known
  cases found : calls.replay h (f, t) with
  | none =>
      refine .inl ⟨rfl, ?_⟩
      cases ends <;> simp only [noticed, found, Option.bind_none]
  | some x =>
      rw [Option.bind_some]
      by_cases entered : x.entered = true
      · refine .inr ?_
        cases ends with
        | returned f c =>
            simp only [noticed, found, Option.bind_some, if_pos entered]
            by_cases returns : x.returns = true
            · exact ⟨_, if_pos returns, .inr rfl⟩
            · exact ⟨_, if_neg returns, .inl rfl⟩
        | raised f t =>
            simp only [noticed, found, Option.bind_some, if_pos entered]
            exact ⟨_, rfl, .inl rfl⟩
      · refine .inl ⟨if_neg entered, ?_⟩
        cases ends with
        | returned f c =>
            have unprobed : ¬ x.returns = true := fun returns =>
              entered (entered_of_returns found returns)
            simp only [noticed, found, Option.bind_some, if_neg entered, if_neg unprobed]
        | raised f t => simp only [noticed, found, Option.bind_some, if_neg entered]

/-- However noticed, the end of a call closes its activation and no other. -/
theorem inProgress_noticed_end (ends : a.Ends f t)
    (before : ∀ g u, inProgress g u (seen h) = known g u h) (g : Fn) (u : UInt32) :
    inProgress g u (seen (.act a :: h)) =
      if (g, u) = (f, t) then none else inProgress g u (seen h) := by
  rcases noticed_end (h := h) ends with ⟨idle, unnoticed⟩ | ⟨b, noticed, closes⟩
  · rw [seen, unnoticed]
    split
    next key =>
        cases key
        exact (before f t).trans idle
    next => rfl
  · have op : activations (seen h) b (g, u) = if (g, u) = (f, t) then .drop else .keep := by
      rcases closes with rfl | rfl
      · rfl
      · cases ends <;> rfl
    rw [seen, noticed, Option.toList_some, List.singleton_append, inProgress, Journal.replay_cons,
      op]
    split <;> rfl

theorem known_end (ends : a.Ends f t) (g : Fn) (u : UInt32) :
    known g u (.act a :: h) = if (g, u) = (f, t) then none else known g u h := by
  have op : calls h (.act a) (g, u) = if (g, u) = (f, t) then .drop else .keep := by
    cases ends <;> rfl
  rw [known, Journal.replay_cons, op]
  split <;> rfl

/-- Of the calls in progress the tracer knows those whose entry was probed. -/
theorem inProgress_seen (law : Lawful (Attaching L) h) (f : Fn) (t : UInt32) :
    inProgress f t (seen h) = known f t h := by
  induction h generalizing f t with
  | nil => rfl
  | cons e h ih =>
      have before := ih law.2
      match e with
      | .attach => exact before f t
      | .act (.entry g c) =>
          have idle : calls.replay h (g, c.tid) = none := by
            have server := law.1.2.1
            rw [Alternating, ← entry_calls, Option.isNone_map] at server
            exact Option.isNone_iff_eq_none.mp server
          rw [known, Journal.replay_cons, calls, seen, noticed]
          by_cases key : (f, t) = (g, c.tid)
          · cases key
            have unknown : inProgress f c.tid (seen h) = none := by
              rw [before, known, idle, Option.bind_none]
            by_cases early : .entry f ∈ attached h
            · simp [early, inProgress, Journal.replay_cons, activations]
            · simp [early, unknown]
          · rw [if_neg key, CellOp.apply_keep, ← known, ← before]
            split
            · simp [inProgress, Journal.replay_cons, activations, key]
            · rfl
      | .act (.exit g c) =>
          have ends : (Action.exit g c).Ends g c.tid := .returned g c
          rw [inProgress_noticed_end ends before, known_end ends, before]
      | .act (.abandon g u) =>
          have ends : (Action.abandon g u).Ends g u := .raised g u
          rw [inProgress_noticed_end ends before, known_end ends, before]

theorem probed_or_abandon {b : Action} (notice : noticed h a = some b) :
    (b = a ∧ probed h a = some a) ∨ ∃ f t, b = .abandon f t := by
  cases a with
  | entry f c =>
      simp only [noticed, Option.ite_none_right_eq_some, Option.some.injEq] at notice
      obtain ⟨early, rfl⟩ := notice
      exact .inl ⟨rfl, if_pos early⟩
  | exit f c =>
      simp only [noticed, Option.bind_eq_some_iff] at notice
      obtain ⟨x, found, same⟩ := notice
      split at same
      next returns =>
          cases same
          refine .inl ⟨rfl, ?_⟩
          simp only [probed, found, Option.any_some, if_pos returns]
      next =>
          simp only [Option.ite_none_right_eq_some, Option.some.injEq] at same
          exact .inr ⟨f, c.tid, same.2.symm⟩
  | abandon f t =>
      simp only [noticed, Option.bind_eq_some_iff, Option.ite_none_right_eq_some,
        Option.some.injEq] at notice
      obtain ⟨x, found, entered, rfl⟩ := notice
      exact .inr ⟨f, t, rfl⟩

theorem time_seen {b : Action} {time : UInt64} (mem : b ∈ seen h) (stamp : time ∈ b.time?) :
    ∃ a ∈ actions h, time ∈ a.time? := by
  induction h with
  | nil => cases mem
  | cons e h ih =>
      cases e with
      | attach => exact ih mem
      | act a =>
          rw [seen, List.mem_append, Option.mem_toList] at mem
          rcases mem with notice | before
          · rcases probed_or_abandon notice with ⟨rfl, -⟩ | ⟨f, t, rfl⟩
            · exact ⟨b, List.mem_cons_self, stamp⟩
            · cases stamp
          · obtain ⟨a', mem', stamp'⟩ := ih before
            exact ⟨a', List.mem_cons_of_mem a mem', stamp'⟩

/-- What the tracer notices alternates as the calls do. -/
theorem alternating_noticed {b : Action} (law : Lawful (Attaching L) (.act a :: h))
    (notice : noticed h a = some b) : Alternating (seen h) b := by
  cases a with
  | entry f c =>
      simp only [noticed, Option.ite_none_right_eq_some, Option.some.injEq] at notice
      obtain ⟨-, rfl⟩ := notice
      have server := law.1.2.1
      rw [Alternating, ← entry_calls, Option.isNone_map, Option.isNone_iff_eq_none] at server
      rw [Alternating, inProgress_seen law.2, known, server, Option.bind_none]
      rfl
  | exit f c =>
      simp only [noticed, Option.bind_eq_some_iff] at notice
      obtain ⟨x, found, same⟩ := notice
      have entered : x.entered = true := by
        split at same
        next returns => exact entered_of_returns found returns
        next => exact (Option.ite_none_right_eq_some.mp same).1
      have live : (inProgress f c.tid (seen h)).isSome = true := by
        rw [inProgress_seen law.2, known, found, Option.bind_some, if_pos entered]
        rfl
      rw [if_pos entered] at same
      split at same <;> cases same <;> exact live
  | abandon f t =>
      simp only [noticed, Option.bind_eq_some_iff, Option.ite_none_right_eq_some,
        Option.some.injEq] at notice
      obtain ⟨x, found, entered, rfl⟩ := notice
      rw [Alternating, inProgress_seen law.2, known, found, Option.bind_some, if_pos entered]
      rfl

theorem lawful_seen (law : Lawful (Attaching L) h) : Lawful (Steady L) (seen h) := by
  induction h with
  | nil => trivial
  | cons e h ih =>
      cases e with
      | attach => exact ih law.2
      | act a =>
          rw [seen]
          cases notice : noticed h a with
          | none => exact ih law.2
          | some b =>
              obtain ⟨timely, -, nonNull, inserts⟩ := law.1
              refine ⟨⟨?_, alternating_noticed law notice, ?_, ?_⟩, ih law.2⟩
              · intro b' mem time' stamp' time stamp
                obtain ⟨a', mem', early⟩ := time_seen mem stamp'
                rcases probed_or_abandon notice with ⟨rfl, -⟩ | ⟨f, t, rfl⟩
                · exact timely a' mem' time' early time stamp
                · cases stamp
              · rcases probed_or_abandon notice with ⟨rfl, -⟩ | ⟨f, t, rfl⟩
                · exact nonNull
                · trivial
              · rcases probed_or_abandon notice with ⟨rfl, fires⟩ | ⟨f, t, rfl⟩
                · have room := inserts b fires
                  rw [← run_seen] at room
                  exact room
                · trivial

/-! ## What is due is recorded -/

/-- A return is probed with the entry of its call in the maps, or the call is not followed. -/
theorem noticed_exit (law : Lawful (Attaching L) h) (f : Fn) (c : Ctx) :
    (∃ e, followed f c.tid h = some e ∧ noticed h (.exit f c) = some (.exit f c) ∧
        inProgress f c.tid (seen h) = some e) ∨
      (followed f c.tid h = none ∧ ∀ b ∈ noticed h (.exit f c), b = .abandon f c.tid) := by
  simp only [followed, noticed, inProgress_seen law, known]
  cases found : calls.replay h (f, c.tid) with
  | none => exact .inr ⟨rfl, fun b mem => nomatch mem⟩
  | some x =>
      simp only [Option.bind_some]
      by_cases returns : x.returns = true
      · have entered := entered_of_returns found returns
        exact .inl ⟨x.entry, if_pos returns, if_pos returns, if_pos entered⟩
      · refine .inr ⟨if_neg returns, fun b mem => ?_⟩
        rw [if_neg returns, Option.mem_def, Option.ite_none_right_eq_some] at mem
        exact (Option.some.inj mem.2).symm

theorem noticed_cases (law : Lawful (Attaching L) h) (a : Action) :
    (∃ f c e, a = .exit f c ∧ followed f c.tid h = some e ∧
        noticed h (.exit f c) = some (.exit f c) ∧ inProgress f c.tid (seen h) = some e) ∨
      ((∀ f c, a = .exit f c → followed f c.tid h = none) ∧
        ∀ b ∈ noticed h a, ∀ f c, b ≠ .exit f c) := by
  cases a with
  | exit f c =>
      rcases noticed_exit law f c with ⟨e, follow, notice, live⟩ | ⟨lost, rest⟩
      · exact .inl ⟨f, c, e, rfl, follow, notice, live⟩
      · refine .inr ⟨?_, fun b mem g d => ?_⟩
        · rintro g d ⟨⟩
          exact lost
        · rw [rest b mem]
          exact Action.noConfusion
  | entry f c =>
      refine .inr ⟨fun g d => Action.noConfusion, fun b mem g d => ?_⟩
      rcases probed_or_abandon mem with ⟨rfl, -⟩ | ⟨f, t, rfl⟩ <;> exact Action.noConfusion
  | abandon f t =>
      refine .inr ⟨fun g d => Action.noConfusion, fun b mem g d => ?_⟩
      rcases probed_or_abandon mem with ⟨rfl, -⟩ | ⟨f, t, rfl⟩ <;> exact Action.noConfusion

/-- Two journals that move at followed returns only, and there alike, agree. -/
theorem replay_seen {κ ν : Type} {J : Journal Action κ ν} {K : Journal Startup κ ν}
    (still : ∀ h b k, (∀ f c, b ≠ .exit f c) → J h b k = .keep)
    (unheard : ∀ h e k, (∀ f c, e = .act (.exit f c) → followed f c.tid h = none) →
      K h e k = .keep)
    (same : ∀ h f c e k, followed f c.tid h = some e → inProgress f c.tid (seen h) = some e →
      J (seen h) (.exit f c) k = K h (.act (.exit f c)) k)
    (law : Lawful (Attaching L) h) (k : κ) : J.replay (seen h) k = K.replay h k := by
  induction h with
  | nil => rfl
  | cons e h ih =>
      have before := ih law.2
      rw [Journal.replay_cons, ← before]
      cases e with
      | attach =>
          rw [unheard h .attach k fun f c => Startup.noConfusion, CellOp.apply_keep, seen]
      | act a =>
          rw [seen]
          rcases noticed_cases law.2 a with ⟨f, c, e, rfl, follow, notice, live⟩ | ⟨lost, rest⟩
          · rw [notice, ← same h f c e k follow live]
            rfl
          · rw [unheard h _ k fun f c eq => lost f c (Startup.act.inj eq), CellOp.apply_keep]
            cases notice : noticed h a with
            | none => rfl
            | some b =>
                rw [Option.toList_some, List.singleton_append, Journal.replay_cons,
                  still _ b k (rest b notice), CellOp.apply_keep]

theorem filings_seen (law : Lawful (Attaching L) h) (r : UInt64) :
    filings.replay (seen h) r = filed.replay h r := by
  refine replay_seen ?_ ?_ ?_ law r
  · intro h b r other
    unfold filings
    split
    next c => exact absurd rfl (other .prepare c)
    next => rfl
  · intro h e r lost
    unfold filed
    split
    next c => rw [lost .prepare c rfl]
    next => rfl
  · intro h f c e r follow live
    cases f with
    | prepare => simp only [filings, filed, follow, live]
    | _ => rfl

theorem openings_seen (law : Lawful (Attaching L) h) (k : UInt64) :
    openings.replay (seen h) k = opened.replay h k := by
  refine replay_seen ?_ ?_ ?_ law k
  · intro h b k other
    unfold openings
    split
    next c => exact absurd rfl (other .openCursor c)
    next c => exact absurd rfl (other .fetchNext c)
    next => rfl
  · intro h e k lost
    unfold opened
    split
    next c => rw [lost .openCursor c rfl]
    next c => rw [lost .fetchNext c rfl]
    next => rfl
  · intro h f c e k follow live
    cases f with
    | openCursor => simp only [openings, opened, follow, live]
    | fetchNext => simp only [openings, opened, follow, live]
    | _ => rfl

theorem owedEvent_seen (law : Lawful (Attaching L) h) (c : Ctx)
    (same : inProgress f c.tid (seen h) = followed f c.tid h) :
    owedEvent (seen h) (.exit f c) = dueEvent h (.exit f c) := by
  cases f with
  | prepare => rfl
  | openCursor => rfl
  | execute => simp only [owedEvent, dueEvent, same, filings_seen law]
  | executeImmediate => simp only [owedEvent, dueEvent, same]
  | fetchNext => simp only [owedEvent, dueEvent, same, filings_seen law, openings_seen law]

theorem dueEvent_of_lost (lost : ∀ f c, a = .exit f c → followed f c.tid h = none) :
    dueEvent h a = none := by
  cases a with
  | entry f c => rfl
  | abandon f t => rfl
  | exit f c =>
      have lost := lost f c rfl
      cases f with
      | prepare => rfl
      | openCursor => rfl
      | execute => simp only [dueEvent, lost, Option.map_none]
      | executeImmediate => simp only [dueEvent, lost, Option.map_none]
      | fetchNext => simp only [dueEvent, lost, Option.bind_none, ite_self]

theorem recordedEvents_seen (law : Lawful (Attaching L) h) :
    recordedEvents (seen h) = dueEvents h := by
  induction h with
  | nil => rfl
  | cons e h ih =>
      have before := ih law.2
      cases e with
      | attach => exact before
      | act a =>
          rw [seen, dueEvents, ← before]
          rcases noticed_cases law.2 a with ⟨f, c, e, rfl, follow, notice, live⟩ | ⟨lost, rest⟩
          · rw [notice, Option.toList_some, List.singleton_append, recordedEvents,
              owedEvent_seen law.2 c (live.trans follow.symm)]
          · rw [dueEvent_of_lost lost]
            cases notice : noticed h a with
            | none => simp
            | some b =>
                have nothing : owedEvent (seen h) b = none := by
                  unfold owedEvent
                  split
                  next c => exact absurd rfl (rest _ notice .execute c)
                  next c => exact absurd rfl (rest _ notice .executeImmediate c)
                  next c => exact absurd rfl (rest _ notice .fetchNext c)
                  next => rfl
                simp [recordedEvents, nothing]

end

/-! ## Nothing is missed in the end -/

theorem attachments_append (post pre : List Startup) :
    attachments pre ≤ attachments (post ++ pre) := by
  induction post with
  | nil => exact le_rfl
  | cons e post ih =>
      cases e with
      | attach => exact ih.trans (Nat.le_succ _)
      | act a => exact ih

theorem attached_all {h : List Startup} (all : attachOrder.length ≤ attachments h) :
    attached h = attachOrder :=
  List.take_of_length_le all

theorem returns_of_attached {pre post : List Startup} {f : Fn} {t : UInt32} {x : Activation}
    (all : attachOrder.length ≤ attachments pre) (moved : ¬ calls.Kept (f, t) pre post)
    (found : calls.replay (post ++ pre) (f, t) = some x) : x.returns = true := by
  induction post with
  | nil => exact absurd trivial moved
  | cons e post ih =>
      rw [List.cons_append, Journal.replay_cons] at found
      cases op : calls (post ++ pre) e (f, t) with
      | keep =>
          rw [op] at found
          exact ih (fun kept => moved ⟨op, kept⟩) found
      | drop =>
          rw [op] at found
          cases found
      | put y =>
          rw [op] at found
          obtain rfl : y = x := Option.some.inj found
          obtain ⟨c, -, rfl⟩ := calls_put op
          have here := attached_all (all.trans (attachments_append post pre))
          have mem : Hook.exit f ∈ attachOrder := by
            cases f <;> decide
          rw [← here] at mem
          exact decide_eq_true mem

/-- Whenever the probes are attached, the events are those due for the calls that were
followed, and once all ten are attached every call entered from then on is followed. -/
theorem events_of_startup {h : List Startup} (law : Lawful (Attaching L) h) :
    ((tracer L).run (firings h)).events = dueEvents h ∧
      ∀ post pre, h = post ++ pre → attachOrder.length ≤ attachments pre →
        ∀ f t, ¬ calls.Kept (f, t) pre post →
          followed f t h = inProgress f t (actions h) := by
  refine ⟨?_, ?_⟩
  · rw [← run_seen, events_eq_recordedEvents (lawful_seen law), recordedEvents_seen law]
  · rintro post pre rfl all f t moved
    rw [← entry_calls, followed]
    cases found : calls.replay (post ++ pre) (f, t) with
    | none => rfl
    | some x =>
        rw [Option.bind_some, if_pos (returns_of_attached all moved found)]
        rfl

/-- Thread 7 is in a prepare when its probes are attached, and enters an execute between the
attachment of its two probes; thread 8 executes the request of that first prepare, thread 7
again that of its second. -/
def lateStart : List Startup :=
  [.act (.exit .execute (firing 7 100 {})),
    .act (.entry .execute (firing 7 90 { rdx := 200 })),
    .act (.exit .execute (firing 8 80 {})),
    .act (.entry .execute (firing 8 70 { rdx := 100 })),
    .act (.exit .execute (firing 7 60 {})),
    .attach,
    .act (.entry .execute (firing 7 50 { rdx := 200 })),
    .attach,
    .act (.exit .prepare (firing 7 40 { rax := 200 })),
    .act (.entry .prepare (firing 7 30 { rsi := 5 })),
    .act (.exit .prepare (firing 7 20 { rax := 100 })),
    .attach, .attach,
    .act (.entry .prepare (firing 7 10 { rsi := 4 }))]

theorem lateStart_events :
    ((tracer declared).run (firings lateStart)).events = dueEvents lateStart :=
  (events_of_startup (by decide +kernel)).1

/-- The statement of the first prepare is not known, and the first execute has no event. -/
example : (dueEvents lateStart).map (fun ev => (ev.tid, ev.attachmentId, ev.executeNs)) =
    [(8, 0, 10), (7, 5, 10)] := by
  decide +kernel

end Tragach.Slowquery
