import Tragach.Library.Interleaving
import Tragach.Pageio.Accounting

/-! # The programs one access at a time

Programs on other CPUs, and on the same CPU the completions an interrupt brings, may come
in between any two accesses of a program. The counters are loaded and stored field by
field, so programs that update different fields of one CPU's counters keep apart.
-/

namespace Tragach.Pageio

open Bpf Library

inductive Counter where
  | engineCount
  | engineTotalNs
  | engineMaxNs
  | blockCount
  | blockTotalBytes
  | blockTotalWaitNs
  | blockMaxWaitNs
  deriving DecidableEq

def PageIoCounters.load (c : PageIoCounters) : Counter → UInt64
  | .engineCount => c.engineCount
  | .engineTotalNs => c.engineTotalNs
  | .engineMaxNs => c.engineMaxNs
  | .blockCount => c.blockCount
  | .blockTotalBytes => c.blockTotalBytes
  | .blockTotalWaitNs => c.blockTotalWaitNs
  | .blockMaxWaitNs => c.blockMaxWaitNs

def PageIoCounters.store (c : PageIoCounters) (v : UInt64) : Counter → PageIoCounters
  | .engineCount => { c with engineCount := v }
  | .engineTotalNs => { c with engineTotalNs := v }
  | .engineMaxNs => { c with engineMaxNs := v }
  | .blockCount => { c with blockCount := v }
  | .blockTotalBytes => { c with blockTotalBytes := v }
  | .blockTotalWaitNs => { c with blockTotalWaitNs := v }
  | .blockMaxWaitNs => { c with blockMaxWaitNs := v }

theorem PageIoCounters.load_store (c : PageIoCounters) (v : UInt64) (f f' : Counter) :
    (c.store v f).load f' = if f' = f then v else c.load f' := by
  cases f <;> cases f' <;> rfl

theorem PageIoCounters.ext_load {c c' : PageIoCounters} (same : ∀ f, c.load f = c'.load f) :
    c = c' := by
  have engineCount : c.engineCount = c'.engineCount := same .engineCount
  have engineTotalNs : c.engineTotalNs = c'.engineTotalNs := same .engineTotalNs
  have engineMaxNs : c.engineMaxNs = c'.engineMaxNs := same .engineMaxNs
  have blockCount : c.blockCount = c'.blockCount := same .blockCount
  have blockTotalBytes : c.blockTotalBytes = c'.blockTotalBytes := same .blockTotalBytes
  have blockTotalWaitNs : c.blockTotalWaitNs = c'.blockTotalWaitNs := same .blockTotalWaitNs
  have blockMaxWaitNs : c.blockMaxWaitNs = c'.blockMaxWaitNs := same .blockMaxWaitNs
  cases c
  cases c'
  simp_all

inductive Access where
  | targetGet
  | fetchInsert (tid : UInt32) (info : FetchInfo)
  | fetchGet (tid : UInt32)
  | fetchRemove (tid : UInt32)
  | requestInsert (key : BlockKey) (now : UInt64)
  | requestGet (key : BlockKey)
  | requestRemove (key : BlockKey)
  | load (cpu : Nat) (f : Counter)
  | store (cpu : Nat) (f : Counter) (v : UInt64)
  deriving DecidableEq

/-- What each access answers; nothing follows an insert whose error is returned. -/
@[reducible] def Answer : Access → Type
  | .targetGet => Option UInt32
  | .fetchGet _ => Option FetchInfo
  | .requestGet _ => Option UInt64
  | .load _ _ => UInt64
  | _ => Unit

variable {L : Limits}

def exec (L : Limits) : Exec (State L) Answer
  | .targetGet, s => (s.targetTgid.get 0, s)
  | .fetchInsert tid info, s => ((), { s with fetchInProgress := s.fetchInProgress.upsert tid info })
  | .fetchGet tid, s => (s.fetchInProgress.get tid, s)
  | .fetchRemove tid, s => ((), { s with fetchInProgress := s.fetchInProgress.remove tid })
  | .requestInsert key now, s => ((), { s with blockInflight := s.blockInflight.upsert key now })
  | .requestGet key, s => (s.blockInflight.get key, s)
  | .requestRemove key, s => ((), { s with blockInflight := s.blockInflight.remove key })
  | .load cpu f, s => ((s.slot cpu).load f, s)
  | .store cpu f v, s => ((), { s with counters := s.counters.set cpu 0 ((s.slot cpu).store v f) })

/-- `(*counters_ptr).f = (*counters_ptr).f.wrapping_add(v)`. -/
def addTo (cpu : Nat) (f : Counter) (v : UInt64) (next : Prog Answer) : Prog Answer :=
  .access (.load cpu f) fun (old : UInt64) => .access (.store cpu f (old + v)) fun _ => next

/-- `if v > (*counters_ptr).f { (*counters_ptr).f = v; }`. -/
def raiseTo (cpu : Nat) (f : Counter) (v : UInt64) (next : Prog Answer) : Prog Answer :=
  .access (.load cpu f) fun (old : UInt64) =>
    if v > old then .access (.store cpu f v) fun _ => next else next

def ofTarget (tgid : UInt32) (next : Prog Answer) : Prog Answer :=
  .access .targetGet fun (target : Option UInt32) =>
    match target with
    | none => .done
    | some target => if target = 0 ∨ target ≠ tgid then .done else next

def cchEntryBody (ctx : FetchContext) : Prog Answer :=
  ofTarget ctx.tgid <|
    .access (.fetchInsert ctx.tid ⟨ctx.ktime, ctx.pageNum⟩) fun _ => .done

def cchExitBody (ctx : FetchContext) : Prog Answer :=
  .access (.fetchGet ctx.tid) fun (info : Option FetchInfo) =>
    match info with
    | none => .done
    | some info =>
        let durationNs := saturatingSub ctx.ktime info.startTs
        .access (.fetchRemove ctx.tid) fun _ =>
          addTo ctx.cpu .engineCount 1 <|
            addTo ctx.cpu .engineTotalNs durationNs <|
              raiseTo ctx.cpu .engineMaxNs durationNs .done

def blockIssueBody (ctx : TracePointContext) : Prog Answer :=
  ofTarget ctx.tgid <|
    match ctx.key, ctx.bytes with
    | some key, .ok bytes =>
        .access (.requestInsert key ctx.ktime) fun _ =>
          addTo ctx.cpu .blockCount 1 <| addTo ctx.cpu .blockTotalBytes bytes.toUInt64 .done
    | _, _ => .done

def blockCompleteBody (ctx : TracePointContext) : Prog Answer :=
  match ctx.key with
  | none => .done
  | some key =>
      .access (.requestGet key) fun (issueTs : Option UInt64) =>
        match issueTs with
        | none => .done
        | some issueTs =>
            let waitNs := saturatingSub ctx.ktime issueTs
            .access (.requestRemove key) fun _ =>
              addTo ctx.cpu .blockTotalWaitNs waitNs <|
                raiseTo ctx.cpu .blockMaxWaitNs waitNs .done

def body : Action → Prog Answer
  | .cchEntry ctx => cchEntryBody ctx
  | .cchExit ctx => cchExitBody ctx
  | .blockIssue ctx => blockIssueBody ctx
  | .blockComplete ctx => blockCompleteBody ctx

/-! ## A program alone -/

theorem counters_ext {a a' : PerCpuArray PageIoCounters 1}
    (same : ∀ cpu, a.slots cpu 0 = a'.slots cpu 0) : a = a' := by
  rcases a with ⟨slots⟩
  rcases a' with ⟨slots'⟩
  congr
  funext cpu j
  rw [Subsingleton.elim j 0]
  exact same cpu

def State.update (s : State L) (cpu : Nat) (c : PageIoCounters) : State L :=
  { s with counters := s.counters.set cpu 0 c }

theorem slot_update (s : State L) (cpu cpu' : Nat) (c : PageIoCounters) :
    (s.update cpu c).slot cpu' = if cpu' = cpu then c else s.slot cpu' :=
  slot_set s.counters cpu cpu' c

theorem update_update (s : State L) (cpu : Nat) (c c' : PageIoCounters) :
    (s.update cpu c).update cpu c' = s.update cpu c' := by
  have counters : (s.counters.set cpu 0 c).set cpu 0 c' = s.counters.set cpu 0 c' :=
    counters_ext fun cpu' => by
      simp only [slot_set]
      split <;> rfl
  exact congrArg (fun counters => { s with counters := counters }) counters

theorem update_slot (s : State L) (cpu : Nat) : s.update cpu (s.slot cpu) = s := by
  have counters : s.counters.set cpu 0 (s.slot cpu) = s.counters :=
    counters_ext fun cpu' => by
      rw [slot_set]
      split
      next same => rw [same]; rfl
      next => rfl
  exact congrArg (fun counters => { s with counters := counters }) counters

theorem run_addTo (s : State L) (cpu : Nat) (f : Counter) (v : UInt64) (next : Prog Answer) :
    (addTo cpu f v next).run (exec L) s =
      next.run (exec L) (s.update cpu ((s.slot cpu).store ((s.slot cpu).load f + v) f)) := rfl

theorem run_raiseTo (s : State L) (cpu : Nat) (f : Counter) (v : UInt64) (next : Prog Answer) :
    (raiseTo cpu f v next).run (exec L) s =
      next.run (exec L) (s.update cpu
        ((s.slot cpu).store (if v > (s.slot cpu).load f then v else (s.slot cpu).load f) f)) := by
  rw [raiseTo, Prog.run_access]
  show (if v > (s.slot cpu).load f then _ else next).run (exec L) s = _
  split
  next => rfl
  next =>
      have same : (s.slot cpu).store ((s.slot cpu).load f) f = s.slot cpu := by
        cases f <;> rfl
      rw [same, update_slot]

theorem run_ofTarget (s : State L) (tgid : UInt32) (next : Prog Answer) :
    (ofTarget tgid next).run (exec L) s =
      if s.target = 0 ∨ s.target ≠ tgid then s else next.run (exec L) s := by
  rw [ofTarget, Prog.run_access]
  show (if s.target = 0 ∨ s.target ≠ tgid then (.done : Prog Answer) else next).run (exec L) s = _
  split <;> rfl

theorem run_body (s : State L) (a : Action) : (body a).run (exec L) s = fire s a := by
  cases a with
  | cchEntry c =>
      rw [fire, final_cchEntry, body, cchEntryBody, run_ofTarget, fetchOf]
      split <;> rfl
  | cchExit c =>
      rw [fire, final_cchExit, body, cchExitBody]
      cases entry : s.fetchInProgress.get c.tid with
      | none => simp [exec, entry]
      | some info =>
          simp only [Prog.run_access, exec, entry, run_addTo, run_raiseTo, Prog.run_done,
            slot_update, update_update, if_true]
          rfl
  | blockIssue c =>
      rw [fire, final_blockIssue, body, blockIssueBody, run_ofTarget, issueOf]
      split
      next => rfl
      next =>
          cases c.key with
          | none => rfl
          | some key =>
              cases c.bytes with
              | error e => rfl
              | ok bytes =>
                  simp only [Prog.run_access, exec, run_addTo, Prog.run_done, slot_update,
                    update_update, if_true]
                  rfl
  | blockComplete c =>
      rw [fire, final_blockComplete, body, blockCompleteBody]
      cases c.key with
      | none => rfl
      | some key =>
          cases entry : s.blockInflight.get key with
          | none => simp [exec, entry]
          | some issueTs =>
              simp only [Prog.run_access, exec, entry, run_addTo, run_raiseTo, Prog.run_done,
                slot_update, update_update, if_true]
              rfl

/-! ## Programs with no cell in common -/

inductive Cell where
  | target
  | fetch (tid : UInt32)
  | request (key : BlockKey)
  | counter (cpu : Nat) (f : Counter)
  deriving DecidableEq

def Cell.Content : Cell → Type
  | .target => ArrayMap UInt32 1
  | .fetch _ => Option FetchInfo
  | .request _ => Option UInt64
  | .counter _ _ => UInt64

def State.cell (s : State L) : (c : Cell) → c.Content
  | .target => s.targetTgid
  | .fetch tid => s.fetchInProgress.get tid
  | .request key => s.blockInflight.get key
  | .counter cpu f => (s.slot cpu).load f

def Access.cell : Access → Cell
  | .targetGet => .target
  | .fetchInsert tid _ | .fetchGet tid | .fetchRemove tid => .fetch tid
  | .requestInsert key _ | .requestGet key | .requestRemove key => .request key
  | .load cpu f | .store cpu f _ => .counter cpu f

/-- The cells a program may touch beside the target. -/
def Action.cells : Action → List Cell
  | .cchEntry c => [.fetch c.tid]
  | .cchExit c =>
      [.fetch c.tid, .counter c.cpu .engineCount, .counter c.cpu .engineTotalNs,
        .counter c.cpu .engineMaxNs]
  | .blockIssue c =>
      c.key.toList.map .request ++
        [.counter c.cpu .blockCount, .counter c.cpu .blockTotalBytes]
  | .blockComplete c =>
      c.key.toList.map .request ++
        [.counter c.cpu .blockTotalWaitNs, .counter c.cpu .blockMaxWaitNs]

/-- Two programs may touch the same cell: they are about one thread or one request, or
they are exits, issues or completions on one CPU. -/
def Meet (a b : Action) : Prop := ∃ c ∈ a.cells, c ∈ b.cells

instance (a b : Action) : Decidable (Meet a b) :=
  inferInstanceAs (Decidable (∃ c ∈ a.cells, c ∈ b.cells))

theorem State.ext_cell {s s' : State L} (same : ∀ c, s.cell c = s'.cell c) : s = s' := by
  have target : s.targetTgid = s'.targetTgid := same .target
  have fetches : s.fetchInProgress = s'.fetchInProgress :=
    HashMap.ext_get fun tid => same (.fetch tid)
  have requests : s.blockInflight = s'.blockInflight :=
    HashMap.ext_get fun key => same (.request key)
  have counters : s.counters = s'.counters :=
    counters_ext fun cpu => PageIoCounters.ext_load fun f => same (.counter cpu f)
  cases s
  cases s'
  cases target
  cases fetches
  cases requests
  cases counters
  rfl

theorem load_store (s : State L) (cpu : Nat) (f : Counter) (v : UInt64) (cpu' : Nat)
    (f' : Counter) :
    ((exec L (.store cpu f v) s).2.slot cpu').load f' =
      if cpu' = cpu ∧ f' = f then v else (s.slot cpu').load f' := by
  show ((s.update cpu ((s.slot cpu).store v f)).slot cpu').load f' = _
  rw [slot_update]
  by_cases here : cpu' = cpu
  · subst here
    simp [PageIoCounters.load_store]
  · simp [here]

def Access.answer : (a : Access) → ((c : Cell) → c.Content) → Answer a
  | .targetGet, v => ArrayMap.get (v .target) 0
  | .fetchGet tid, v => v (.fetch tid)
  | .requestGet key, v => v (.request key)
  | .load cpu f, v => v (.counter cpu f)
  | .fetchInsert _ _, _ | .fetchRemove _, _ | .requestInsert _ _, _ | .requestRemove _, _
  | .store _ _ _, _ => ()

/-- What an access that is not refused leaves in a cell. -/
def Access.effect : Access → (c : Cell) → c.Content → c.Content
  | .fetchInsert tid info, .fetch tid', v => if tid' = tid then some info else v
  | .fetchRemove tid, .fetch tid', v => if tid' = tid then none else v
  | .requestInsert key now, .request key', v => if key' = key then some now else v
  | .requestRemove key, .request key', v => if key' = key then none else v
  | .store cpu f new, .counter cpu' f', v => if cpu' = cpu ∧ f' = f then new else v
  | _, _, v => v

/-- The access is not an insert into a full map. -/
def Accepts (s : State L) : Access → Prop
  | .fetchInsert tid _ => s.fetchInProgress.accepts tid = true
  | .requestInsert key _ => s.blockInflight.accepts key = true
  | _ => True

instance (s : State L) : ∀ a, Decidable (Accepts s a)
  | .fetchInsert tid _ => inferInstanceAs (Decidable (s.fetchInProgress.accepts tid = true))
  | .requestInsert key _ => inferInstanceAs (Decidable (s.blockInflight.accepts key = true))
  | .targetGet | .fetchGet _ | .fetchRemove _ | .requestGet _ | .requestRemove _ | .load _ _
  | .store _ _ _ => inferInstanceAs (Decidable True)

theorem byCells : ByCells State.cell (exec L) Accepts Access.answer Access.effect := by
  constructor
  · intro s a _
    cases a <;> rfl
  · intro s a accepts c
    cases a with
    | fetchInsert tid info =>
        cases c with
        | fetch tid' =>
            exact HashMap.get_upsert_of_accepts (m := s.fetchInProgress) accepts info tid'
        | _ => rfl
    | fetchRemove tid =>
        cases c with
        | fetch tid' => exact HashMap.get_remove s.fetchInProgress tid tid'
        | _ => rfl
    | requestInsert key now =>
        cases c with
        | request key' =>
            exact HashMap.get_upsert_of_accepts (m := s.blockInflight) accepts now key'
        | _ => rfl
    | requestRemove key =>
        cases c with
        | request key' => exact HashMap.get_remove s.blockInflight key key'
        | _ => rfl
    | store cpu f v =>
        cases c with
        | counter cpu' f' => exact load_store s cpu f v cpu' f'
        | _ => rfl
    | _ => rfl

def unlimited : Limits := ⟨none, none⟩

theorem accepts_unlimited (s : State unlimited) (a : Access) : Accepts s a := by
  cases a with
  | fetchInsert tid info => exact HashMap.accepts_unlimited ..
  | requestInsert key now => exact HashMap.accepts_unlimited ..
  | _ => trivial

theorem access_local (a : Access) : Local State.cell (exec unlimited) a a.cell := by
  refine byCells.isLocal accepts_unlimited (fun v v' same => ?_) (fun c v other => ?_)
  · cases a with
    | targetGet => exact congrArg (ArrayMap.get · 0) same
    | fetchGet tid => exact same
    | requestGet key => exact same
    | load cpu f => exact same
    | _ => rfl
  · cases a with
    | fetchInsert tid info =>
        cases c with
        | fetch tid' => exact if_neg fun same => other (congrArg Cell.fetch same)
        | _ => rfl
    | fetchRemove tid =>
        cases c with
        | fetch tid' => exact if_neg fun same => other (congrArg Cell.fetch same)
        | _ => rfl
    | requestInsert key now =>
        cases c with
        | request key' => exact if_neg fun same => other (congrArg Cell.request same)
        | _ => rfl
    | requestRemove key =>
        cases c with
        | request key' => exact if_neg fun same => other (congrArg Cell.request same)
        | _ => rfl
    | store cpu f new =>
        cases c with
        | counter cpu' f' =>
            refine if_neg fun same => other ?_
            rw [same.1, same.2, Access.cell]
        | _ => rfl
    | _ => rfl

/-- The accesses of a program are to its cells, but for the look at the target. -/
def Access.Within (cells : List Cell) (a : Access) : Prop := a = .targetGet ∨ a.cell ∈ cells

section

variable {cells : List Cell} {cpu : Nat} {f : Counter} {v : UInt64} {next : Prog Answer}

theorem addTo_within (mem : .counter cpu f ∈ cells) (rest : next.All (Access.Within cells)) :
    (addTo cpu f v next).All (Access.Within cells) :=
  ⟨.inr mem, fun _ => ⟨.inr mem, fun _ => rest⟩⟩

theorem raiseTo_within (mem : .counter cpu f ∈ cells) (rest : next.All (Access.Within cells)) :
    (raiseTo cpu f v next).All (Access.Within cells) := by
  refine ⟨.inr mem, fun old => ?_⟩
  dsimp only
  split
  next => exact ⟨.inr mem, fun _ => rest⟩
  next => exact rest

theorem ofTarget_within {tgid : UInt32} (rest : next.All (Access.Within cells)) :
    (ofTarget tgid next).All (Access.Within cells) := by
  refine ⟨.inl rfl, fun target => ?_⟩
  cases target with
  | none => trivial
  | some target =>
      dsimp only
      split
      next => trivial
      next => exact rest

end

theorem body_within (a : Action) : (body a).All (Access.Within a.cells) := by
  cases a with
  | cchEntry c => exact ofTarget_within ⟨.inr (by simp [Access.cell, Action.cells]), fun _ => trivial⟩
  | cchExit c =>
      have thread : Cell.fetch c.tid ∈ (Action.cchExit c).cells := by simp [Action.cells]
      refine ⟨.inr thread, fun info => ?_⟩
      cases info with
      | none => trivial
      | some info =>
          refine ⟨.inr thread, fun _ => ?_⟩
          exact addTo_within (by simp [Action.cells]) <|
            addTo_within (by simp [Action.cells]) <| raiseTo_within (by simp [Action.cells]) trivial
  | blockIssue c =>
      refine ofTarget_within ?_
      cases key : c.key with
      | none => trivial
      | some k =>
          cases c.bytes with
          | error e => trivial
          | ok bytes =>
              refine ⟨.inr (by simp [Access.cell, Action.cells, key]), fun _ => ?_⟩
              exact addTo_within (by simp [Action.cells]) <|
                addTo_within (by simp [Action.cells]) trivial
  | blockComplete c =>
      simp only [body, blockCompleteBody]
      cases key : c.key with
      | none => trivial
      | some k =>
          have request : Cell.request k ∈ (Action.blockComplete c).cells := by
            simp [Action.cells, key]
          refine ⟨.inr request, fun issueTs => ?_⟩
          cases issueTs with
          | none => trivial
          | some issueTs =>
              refine ⟨.inr request, fun _ => ?_⟩
              exact addTo_within (by simp [Action.cells]) <|
                raiseTo_within (by simp [Action.cells]) trivial

theorem target_notMem (a : Action) : Cell.target ∉ a.cells := by
  cases a <;> simp [Action.cells]

/-- Programs with no cell in common do not interfere. -/
theorem body_apart (a b : Action) (other : ¬ Meet a b) :
    (body a).Apart (exec unlimited) (body b) := by
  refine (body_within a).mono fun x first => (body_within b).mono fun y second => ?_
  by_cases cells : x.cell = y.cell
  · -- only the target is looked at by both
    have reads : x = .targetGet ∧ y = .targetGet := by
      rcases first with first | first
      · rcases second with second | second
        · exact ⟨first, second⟩
        · rw [← cells, first] at second
          exact absurd second (target_notMem b)
      · rcases second with second | second
        · rw [cells, second] at first
          exact absurd first (target_notMem a)
        · exact absurd ⟨x.cell, first, cells ▸ second⟩ other
    rw [reads.1, reads.2]
    exact .of_reads (fun _ => rfl) (fun _ => rfl)
  · exact (access_local x).independent (access_local y) cells State.ext_cell

/-! ## Interleaved runs -/

abbrev running (L : Limits) (target : UInt32) :
    System (Threads (State L) Nat Action Answer) (ThreadStep Nat Action) :=
  interleaved body (exec L) (State.loaded L target)

/-- No program begins while another it may share a cell with is running. -/
abbrev KeepingApart (L : Limits) (target : UInt32) :
    List (ThreadStep Nat Action) → ThreadStep Nat Action → Prop :=
  NoClash body (exec L) (State.loaded L target) Meet

abbrev NoneRefused (L : Limits) (target : UInt32) :
    List (ThreadStep Nat Action) → ThreadStep Nat Action → Prop :=
  AccessOk body (exec L) (State.loaded L target) Accepts

theorem serial_eq_programs (target : UInt32) (h : History) :
    (serial body (exec L) (State.loaded L target)).run h = (programs L target).run h := by
  induction h with
  | nil => rfl
  | cons a h ih => exact (run_body _ a).trans (congrArg (fire · a) ih)

theorem imitates (L : Limits) (target : UInt32) :
    Imitates State.cell (exec L) Accepts (State.loaded L target) State.cell (exec unlimited)
      (State.loaded unlimited target) := by
  refine byCells.imitates byCells accepts_unlimited fun c => ?_
  cases c with
  | fetch tid => exact (HashMap.get_empty tid).trans (HashMap.get_empty tid).symm
  | request key => exact (HashMap.get_empty key).trans (HashMap.get_empty key).symm
  | _ => rfl

theorem roomy_unlimited (target : UInt32) (h : History) : Lawful (Roomy unlimited target) h := by
  refine lawful_iff_split.mpr fun post e pre split => ⟨?_, ?_⟩
  · cases e with
    | cchEntry c => exact fun begins => HashMap.accepts_unlimited ..
    | _ => trivial
  · cases e with
    | blockIssue c => exact fun x begins => HashMap.accepts_unlimited ..
    | _ => trivial

/-- However the programs interleave on their CPUs, once all have returned the counters are
those of the programs running one after another in the order they began. Those that add up
are the total of what the firings on the CPU contributed, and the maps hold what has begun
and not ended. -/
theorem interleaved_counts {target : UInt32} {h : List (ThreadStep Nat Action)}
    (apart : Lawful (KeepingApart L target) h) (room : Lawful (NoneRefused L target) h)
    (idle : ((running L target).run h).active = []) :
    (∀ cpu, ((running L target).run h).shared.slot cpu =
        ((programs unlimited target).run (entered h)).slot cpu) ∧
      (∀ f cpu, f.of (((running L target).run h).shared.slot cpu) =
        UInt64.ofNat ((contributed target f).balance (entered h) cpu)) ∧
      (∀ tid, ((running L target).run h).shared.fetchInProgress.get tid =
        (fetches target).replay (entered h) tid) ∧
      ∀ key, ((running L target).run h).shared.blockInflight.get key =
        (requests target).replay (entered h) key := by
  have same (c : Cell) := (imitates L target).part_shared body_apart room apart idle c
  rw [serial_eq_programs] at same
  have slots (cpu : Nat) : ((running L target).run h).shared.slot cpu =
      ((programs unlimited target).run (entered h)).slot cpu :=
    PageIoCounters.ext_load fun f => same (.counter cpu f)
  have roomy := roomy_unlimited target (entered h)
  have forFetches : Lawful (RoomForFetches unlimited target) (entered h) :=
    roomy.mono fun _ _ room _ => room.1
  have forRequests : Lawful (RoomForRequests unlimited target) (entered h) :=
    roomy.mono fun _ _ room _ => room.2
  refine ⟨slots, fun f cpu => ?_, fun tid => ?_, fun key => ?_⟩
  · rw [← balance_contributions roomy, ← of_slot, slots]
  · exact (same (.fetch tid)).trans (fetchInProgress_eq_replay forFetches tid)
  · exact (same (.request key)).trans (blockInflight_eq_replay forRequests key)

/-- An interrupt completes a request while CPU 0 is in the middle of counting a fetch. -/
def interruptedExit : List (ThreadStep Nat Action) :=
  [.advance 0, .advance 0, .advance 0, .advance 0, .advance 0,
    .advance 1, .advance 1, .advance 1, .advance 1, .advance 1, .advance 1, .advance 1,
    .enter 1 (.blockComplete (requestAt 0 100 50)),
    .advance 0, .advance 0, .advance 0, .advance 0,
    .enter 0 (.cchExit (fetchAt 0 7 40 42)),
    .advance 0, .advance 0, .advance 0, .advance 0, .advance 0, .advance 0, .advance 0,
    .enter 0 (.blockIssue (requestAt 0 100 20 42)),
    .advance 0, .advance 0, .advance 0,
    .enter 0 (.cchEntry (fetchAt 0 7 10 42))]

theorem interruptedExit_counts :
    ((running declared 42).run interruptedExit).shared.slot 0 =
        ((programs unlimited 42).run (entered interruptedExit)).slot 0 ∧
      Field.engineTotalNs.of (((running declared 42).run interruptedExit).shared.slot 0) = 30 ∧
      Field.blockTotalWaitNs.of (((running declared 42).run interruptedExit).shared.slot 0) = 30 := by
  have apart : Lawful (KeepingApart declared 42) interruptedExit := by decide +kernel
  obtain ⟨slots, counts, -⟩ := interleaved_counts apart (by decide +kernel) (by decide +kernel)
  exact ⟨slots 0, (counts .engineTotalNs 0).trans (by decide +kernel),
    (counts .blockTotalWaitNs 0).trans (by decide +kernel)⟩

end Tragach.Pageio
