import BulletFarm.Worker.Ending

/-!
# The times of the intermediate flushes

A tool that starts more than five minutes after the start of the run writes a checkpoint,
and the checkpoint says at which step. Nothing is noted of the flush: the clock of the
buffer stands still, and every later tool start writes another one.
-/

namespace BulletFarm.Worker

open Interaction Python Json

set_option autoImplicit false

/-! ## Tool starts -/

/-- When a tool started. -/
def startTime : AgentEvent → Option Time
  | .toolStart _ elapsed _ => some elapsed
  | _ => none

def startTimes (events : List AgentEvent) : List Time := events.filterMap startTime

/-- The readings of the clock for an event. -/
def readings : AgentEvent → List Time
  | .toolStart _ elapsed sinceFlush => [elapsed, sinceFlush]
  | _ => []

def streamedBy : Event WorkerOp.Resp → List AgentEvent
  | ⟨.streamEvents _ _, stream⟩ => stream.events
  | _ => []

/-- The events of all attempts at the agent. -/
def streamed (tr : List (Event WorkerOp.Resp)) : List AgentEvent := tr.flatMap streamedBy

/-- Time does not run backwards. -/
def NonDecreasing (events : List AgentEvent) : Prop :=
  (events.flatMap readings).Pairwise (· ≤ ·)

/-! ## Intermediate flushes -/

def progressText (step : Nat) : String := "Task in progress (step " ++ toString step ++ ")"

/-- The last of the documents is that of this step. -/
def ofStep (docs : List Dict) (step : Nat) : Bool :=
  match docs.getLast?.bind (Value.lookup "output") with
  | some (.str text) => text = progressText step
  | _ => false

/-- When the step of the last document started, for tools started at these times. -/
def stepTime (times : List Time) (docs : List Dict) : Option Time :=
  (times.zipIdx 1).findSome? fun t => if ofStep docs t.2 then some t.1 else none

/-- The times of the bulk writes made before the run had an outcome. -/
def flushTimes : List Time → List (Event WorkerOp.Resp) → List (Option Time)
  | _, [] => []
  | _, ⟨.streamEvents _ _, stream⟩ :: tr => flushTimes (startTimes stream.events) tr
  | times, ⟨.bulk docs, _⟩ :: tr =>
    if docs.any hasOutcome then flushTimes times tr else stepTime times docs :: flushTimes times tr
  | times, _ :: tr => flushTimes times tr

/-- More than five minutes, from one time to another. -/
def WellApart (before after : Time) : Prop :=
  after - before > seconds MemoryWriteBuffer.maxRuntimeSeconds

instance (before after : Time) : Decidable (WellApart before after) :=
  inferInstanceAs (Decidable (_ > _))

/-- The first flush is more than five minutes after the start, each other one more than that
after the one before. -/
def Spaced (start : Time) (times : List Time) : Prop :=
  (∀ t ∈ times.head?, WellApart start t) ∧ times.IsChain WellApart

/-- The tools started more than five minutes after the start. -/
def lateStarts (start : Time) (events : List AgentEvent) : List Time :=
  (startTimes events).filter fun t => WellApart start t

/-! ## Steps and their texts -/

theorem toString_injective {m n : Nat} (h : toString m = toString n) : m = n := by
  have hdigits : Nat.toDigits 10 m = Nat.toDigits 10 n := by
    rw [← Nat.toList_repr, ← Nat.toList_repr]
    exact congrArg String.toList h
  rw [← @Nat.ofDigitChars_ten_toDigits m, hdigits, Nat.ofDigitChars_ten_toDigits]

theorem progressText_inj {m n : Nat} : progressText m = progressText n ↔ m = n := by
  constructor
  · intro h
    have hleft := (String.append_left_inj _).mp h
    exact toString_injective ((String.append_right_inj _).mp hleft)
  · exact congrArg progressText

section Steps
variable {times : List Time} {docs : List Dict} {step : Nat}

theorem findStep (offset : Nat) (k : Nat) : ((times.zipIdx offset).findSome? fun t =>
    if t.2 = offset + k then some t.1 else none) = times[k]? := by
  induction times generalizing offset k with
  | nil => rfl
  | cons t times ih =>
    rw [List.zipIdx_cons, List.findSome?_cons]
    cases k with
    | zero => simp
    | succ k =>
      have hne : ¬ offset = offset + (k + 1) := by omega
      have hstep : offset + (k + 1) = offset + 1 + k := by omega
      rw [if_neg hne, List.getElem?_cons_succ, ← ih (offset + 1) k, hstep]

/-- A document of a step tells when the step started. -/
theorem stepTime_eq (doc : Dict) (hlast : docs.getLast? = some doc)
    (houtput : Value.lookup "output" doc = some (.str (progressText (step + 1)))) :
    stepTime times docs = times[step]? := by
  rw [← findStep 1 step]
  unfold stepTime
  congr 1
  funext t
  have hof : ofStep docs t.2 = decide (t.2 = 1 + step) := by
    unfold ofStep
    rw [hlast, Option.bind_some, houtput]
    have hiff : progressText (step + 1) = progressText t.2 ↔ t.2 = 1 + step := by
      rw [progressText_inj]
      omega
    simp only [hiff]
  simp [hof]

end Steps

/-! ## Traces -/

/-- The call is not for a stream of the agent. -/
def Unstreamed : WorkerOp → Prop
  | .streamEvents _ _ => False
  | _ => True

theorem Quiet.unstreamed {o : WorkerOp} (h : Quiet o) : Unstreamed o := by
  cases o with
  | streamEvents _ _ => exact h
  | _ => trivial

theorem Stores.unstreamed {o : WorkerOp} (h : Stores o) : Unstreamed o := by
  cases o with
  | streamEvents _ _ => exact h
  | _ => trivial

section Traces
variable {times : List Time} {tr tr₁ tr₂ : List (Event WorkerOp.Resp)}

theorem streamed_append : streamed (tr₁ ++ tr₂) = streamed tr₁ ++ streamed tr₂ := List.flatMap_append

theorem streamed_unstreamed (h : ∀ e ∈ tr, Unstreamed e.1) : streamed tr = [] := by
  apply List.flatMap_eq_nil_iff.mpr
  intro e he
  have hop := h e he
  obtain ⟨o, r⟩ := e
  cases o with
  | streamEvents _ _ => exact hop.elim
  | _ => rfl

theorem flushTimes_unstreamed (h : ∀ e ∈ tr, Unstreamed e.1) : flushTimes times tr =
    ((handed tr).filter fun docs => !docs.any hasOutcome).map (stepTime times) := by
  induction tr with
  | nil => rfl
  | cons e tr ih =>
    have hrest := ih fun e' he' => h e' (List.mem_cons_of_mem _ he')
    have hop := h e List.mem_cons_self
    obtain ⟨o, r⟩ := e
    cases o with
    | streamEvents _ _ => exact hop.elim
    | bulk docs =>
      have hhanded : handed (⟨.bulk docs, r⟩ :: tr) = docs :: handed tr := rfl
      rw [flushTimes, hhanded, hrest]
      cases hany : docs.any hasOutcome <;> simp [hany]
    | _ => exact hrest

theorem flushTimes_append_unstreamed (h : ∀ e ∈ tr₁, Unstreamed e.1) :
    flushTimes times (tr₁ ++ tr₂) = flushTimes times tr₁ ++ flushTimes times tr₂ := by
  induction tr₁ with
  | nil => rfl
  | cons e tr₁ ih =>
    have hrest := ih fun e' he' => h e' (List.mem_cons_of_mem _ he')
    have hop := h e List.mem_cons_self
    obtain ⟨o, r⟩ := e
    cases o with
    | streamEvents _ _ => exact hop.elim
    | bulk docs =>
      rw [List.cons_append, flushTimes, flushTimes, hrest]
      split <;> rfl
    | _ => exact hrest

theorem flushTimes_append (times : List Time) (tr₁ tr₂ : List (Event WorkerOp.Resp)) : ∃ times',
    flushTimes times (tr₁ ++ tr₂) = flushTimes times tr₁ ++ flushTimes times' tr₂ := by
  induction tr₁ generalizing times with
  | nil => exact ⟨times, rfl⟩
  | cons e tr₁ ih =>
    obtain ⟨o, r⟩ := e
    cases o with
    | streamEvents _ _ => exact ih _
    | bulk docs =>
      obtain ⟨times', hrest⟩ := ih times
      refine ⟨times', ?_⟩
      rw [List.cons_append, flushTimes, flushTimes, hrest]
      split <;> rfl
    | _ => exact ih times

end Traces

/-! ## The agent -/

/-- The second reading of the clock is not before the first. -/
def Forward : AgentEvent → Prop
  | .toolStart _ elapsed sinceFlush => elapsed ≤ sinceFlush
  | _ => True

/-- A run of this task before its outcome, with a buffer that was made at `start`. -/
structure Running (taskID : String) (start : Time) (s : RunState) : Prop where
  unended : Unended taskID s.buffer
  kept : Kept start s

/-- Exactly the late tool starts flush. -/
def FlushesLate (taskID : String) (start : Time) (s : RunState) (tr : List (Event WorkerOp.Resp))
    (s' : RunState) : Prop :=
  Running taskID start s → (∀ event ∈ streamed tr, Forward event) → Running taskID start s' ∧
    ∀ times, flushTimes times tr = (lateStarts start (streamed tr)).map some

section Agent
variable {taskID : String} {start : Time} {s s' : RunState} {tr : List (Event WorkerOp.Resp)}
  {request : TaskRequest}

theorem FlushesLate.composes (taskID : String) (start : Time) : Effect.Composes (FlushesLate taskID start) where
  refl s hrunning _ := ⟨hrunning, fun _ => rfl⟩
  trans {s₁ tr₁ s₂ tr₂ s₃} h₁ h₂ := by
    intro hrunning hforward
    rw [streamed_append] at hforward
    obtain ⟨hrunning, htimes₁⟩ := h₁ hrunning fun e he => hforward e (List.mem_append_left _ he)
    obtain ⟨hrunning, htimes₂⟩ := h₂ hrunning fun e he => hforward e (List.mem_append_right _ he)
    refine ⟨hrunning, fun times => ?_⟩
    obtain ⟨times', hboth⟩ := flushTimes_append times tr₁ tr₂
    rw [hboth, htimes₁, htimes₂, streamed_append]
    simp [lateStarts, startTimes]

/-- A step that neither flushes nor hears from the agent. -/
theorem FlushesLate.of_quiet (hquiet : ∀ e ∈ tr, Quiet e.1)
    (h : Running taskID start s → Running taskID start s') : FlushesLate taskID start s tr s' := by
  intro hrunning _
  have hunstreamed := fun e he => (hquiet e he).unstreamed
  refine ⟨h hrunning, fun times => ?_⟩
  rw [flushTimes_unstreamed hunstreamed, handed_quiet hquiet, streamed_unstreamed hunstreamed]
  rfl

theorem Makes.flushesLate {α : Type} {m : RunM α} (hm : Makes Quiet m) :
    Effect.Moves (FlushesLate taskID start) m := by
  intro s tr r s' h
  obtain ⟨rfl, hquiet⟩ := hm _ _ _ _ h
  exact FlushesLate.of_quiet hquiet id

theorem Running.checkpoint (h : Running taskID start s) (request : TaskRequest) (stamp : Time)
    (step : Nat) :
    Running taskID start (s.addTask stamp (checkpointDoc request step)) where
  unended := by
    apply h.unended.checkpoint
    apply taskDocument_taskDoc
    · simp [checkpointDoc, Value.lookup]
    · simp [checkpointDoc, Value.lookup]
    · simp [checkpointDoc, Value.lookup]
  kept := h.kept.addTask stamp _

theorem Unended.allDocs {b : MemoryWriteBuffer} (h : Unended taskID b) :
    b.allDocs = b.taskMemoryDocs ∧ b.allDocs.any hasOutcome = false := by
  have hdocs : b.allDocs = b.taskMemoryDocs := by
    unfold MemoryWriteBuffer.allDocs
    rw [h.shared, List.append_nil]
  refine ⟨hdocs, ?_⟩
  rw [hdocs, List.any_eq_false]
  intro doc hdoc
  rw [(h.tasks doc hdoc).hasOutcome]
  simp

/-- A checkpoint tells when its step started. -/
theorem checkpoint_stepTime (h : Running taskID start s) (request : TaskRequest) (stamp : Time)
    (step : Nat) (times : List Time) :
    stepTime times (s.addTask stamp (checkpointDoc request (step + 1))).buffer.allDocs = times[step]? := by
  apply stepTime_eq (s.buffer.taskDocument stamp (checkpointDoc request (step + 1)))
  · rw [(h.checkpoint request stamp (step + 1)).unended.allDocs.1]
    exact List.getLast?_concat
  · apply s.buffer.lookup_taskDocument
    rfl

theorem lateStarts_cons (event : AgentEvent) (rest : List AgentEvent) :
    lateStarts start (event :: rest) = lateStarts start [event] ++ lateStarts start rest := by
  unfold lateStarts startTimes
  rw [← List.filter_append, ← List.filterMap_append]
  rfl

/-- A tool start flushes by its first reading of the clock. -/
theorem shouldFlush_apart (hkept : Kept start s) (name : String) {elapsed sinceFlush : Time}
    (hforward : elapsed ≤ sinceFlush) :
    s.buffer.shouldFlushIntermediate elapsed sinceFlush = true ↔ WellApart start elapsed := by
  rw [shouldFlushIntermediate_iff hkept name]
  constructor
  · exact And.left
  · intro hapart
    exact ⟨hapart, Int.lt_of_lt_of_le hapart (Int.sub_le_sub_right hforward start)⟩

/-- A checkpoint is indexed at once, at the time of its step. -/
theorem checkpoint_marks {times : List Time} {elapsed : Time} {step : Nat} {r : Except Exc Nat}
    (h : Effect.Ends (do
      addTaskMemory (checkpointDoc request (step + 1))
      let _ ← flush
      pure (step + 1) : RunM Nat) s tr r s') (hrunning : Running taskID start s)
    (hstep : times[step]? = some elapsed) :
    Running taskID start s' ∧ (∀ e ∈ tr, Unstreamed e.1) ∧ flushTimes times tr = [some elapsed] ∧
      ∀ n, r = .ok n → n = step + 1 := by
  obtain ⟨tr₁, tr₂, _, s₁, rfl, h₁, h₂⟩ := (addTaskMemory_returns _).ends_bind h
  obtain ⟨stamp, rfl, _, rfl⟩ := addTaskMemory_ends h₁
  obtain ⟨tr₃, tr₄, _, s₂, rfl, h₃, h₄⟩ := flush_returns.ends_bind h₂
  obtain ⟨rfl, rfl, rfl⟩ := Effect.ends_pure h₄
  have hunstreamed : ∀ e ∈ tr₃, Unstreamed e.1 := fun e he => ((flush_makes _ _ _ _ h₃).2 e he).unstreamed
  obtain ⟨rfl, hhanded, _⟩ := flush_ends h₃
  have hrunning' : Running taskID start _ := hrunning.checkpoint request stamp (step + 1)
  have htime := checkpoint_stepTime hrunning request stamp step times
  have hempty : (s.addTask stamp (checkpointDoc request (step + 1))).buffer.allDocs.isEmpty = false := by
    rw [hrunning'.unended.allDocs.1]
    simp [RunState.addTask, MemoryWriteBuffer.addTaskMemory]
  rw [hempty] at hhanded
  refine ⟨hrunning', ?_, ?_, ?_⟩
  · intro e he
    rw [List.append_nil] at he
    rcases List.mem_append.mp he with he | he
    · rw [List.mem_singleton.mp he]
      trivial
    · exact hunstreamed e he
  · have hfirst : flushTimes times [⟨.now, stamp⟩] = [] := rfl
    rw [List.append_nil, flushTimes_append_unstreamed (by simp [Unstreamed]), hfirst,
      flushTimes_unstreamed hunstreamed, hhanded]
    simp [hrunning'.unended.allDocs.2, htime, hstep]
  · intro n hn
    cases hn
    rfl

/-- One event at a time: it flushes if it is a late tool start, and counts if it is one. -/
theorem handleEvent_marks {times : List Time} {event : AgentEvent} {step : Nat} {r : Except Exc Nat}
    (h : (handleEvent request step event).Ends s tr r s') (hrunning : Running taskID start s)
    (hforward : Forward event) (hstep : ∀ t, startTime event = some t → times[step]? = some t) :
    Running taskID start s' ∧ (∀ e ∈ tr, Unstreamed e.1) ∧
      flushTimes times tr = (lateStarts start [event]).map some ∧
      ∀ n, r = .ok n → n = step + (startTimes [event]).length := by
  have hpure : ∀ {n : Nat} {s s' : RunState} {r : Except Exc Nat},
      Effect.Ends (pure n : RunM Nat) s tr r s' → Running taskID start s →
        Running taskID start s' ∧ (∀ e ∈ tr, Unstreamed e.1) ∧ flushTimes times tr = [] ∧
          ∀ m, r = .ok m → m = n := by
    intro n s s' r h hrunning
    obtain ⟨rfl, rfl, rfl⟩ := Effect.ends_pure h
    refine ⟨hrunning, by simp, rfl, ?_⟩
    intro m hm
    cases hm
    rfl
  cases event with
  | toolStart name elapsed sinceFlush =>
    have h₂ := Effect.ends_get_bind h
    have hshould := shouldFlush_apart hrunning.kept name hforward
    split at h₂
    · next hflush =>
      have hlate : lateStarts start [.toolStart name elapsed sinceFlush] = [elapsed] := by
        simp [lateStarts, startTimes, startTime, hshould.mp hflush]
      rw [hlate]
      exact checkpoint_marks h₂ hrunning (hstep elapsed rfl)
    · next hflush =>
      have hlate : lateStarts start [.toolStart name elapsed sinceFlush] = [] := by
        have hnot : ¬ WellApart start elapsed := fun hapart => hflush (hshould.mpr hapart)
        simp [lateStarts, startTimes, startTime, hnot]
      rw [hlate]
      exact hpure h₂ hrunning
  | chatModelEnd output =>
    cases output with
    | none => exact hpure h hrunning
    | some output =>
      have hmodify := Effect.ends_modify_bind h
      exact hpure hmodify ⟨hrunning.unended, hrunning.kept.started, hrunning.kept.flushed, hrunning.kept.added⟩
  | toolEnd => exact hpure h hrunning
  | other kind => exact hpure h hrunning

theorem handleEvents_marks {events : List AgentEvent} (done : List Time) {step : Nat}
    {r : Except Exc Unit} (h : (handleEvents request step events).Ends s tr r s')
    (hrunning : Running taskID start s) (hforward : ∀ event ∈ events, Forward event)
    (hstep : step = done.length) :
    Running taskID start s' ∧ (∀ e ∈ tr, Unstreamed e.1) ∧
      flushTimes (done ++ startTimes events) tr = (lateStarts start events).map some := by
  induction events generalizing step done s tr with
  | nil =>
    obtain ⟨rfl, rfl, rfl⟩ := Effect.ends_pure h
    exact ⟨hrunning, by simp, rfl⟩
  | cons event rest ih =>
    obtain ⟨tr₁, tr₂, n, s₁, rfl, h₁, h₂⟩ := (handleEvent_returns step event).ends_bind h
    have hsplit : done ++ startTimes (event :: rest) = done ++ startTimes [event] ++ startTimes rest := by
      rw [List.append_assoc, startTimes, startTimes, startTimes, ← List.filterMap_append]
      rfl
    have hnext : ∀ t, startTime event = some t →
        (done ++ startTimes (event :: rest))[step]? = some t := by
      intro t ht
      rw [hsplit, hstep]
      simp [startTimes, ht]
    obtain ⟨hrunning₁, hunstreamed₁, htimes₁, hcount⟩ :=
      handleEvent_marks h₁ hrunning (hforward event List.mem_cons_self) hnext
    have hlength : n = (done ++ startTimes [event]).length := by
      rw [hcount n rfl, hstep, List.length_append]
    obtain ⟨hrunning₂, hunstreamed₂, htimes₂⟩ :=
      ih _ h₂ hrunning₁ (fun e he => hforward e (List.mem_cons_of_mem _ he)) hlength
    refine ⟨hrunning₂, ?_, ?_⟩
    · intro e he
      rcases List.mem_append.mp he with he | he
      · exact hunstreamed₁ e he
      · exact hunstreamed₂ e he
    · rw [flushTimes_append_unstreamed hunstreamed₁, htimes₁, hsplit, htimes₂, lateStarts_cons event rest,
        List.map_append]

theorem FlushesLate.result (s : RunState) (result : Option (List Message)) :
    FlushesLate taskID start s [] { s with result := result } := by
  apply FlushesLate.of_quiet (by simp)
  intro hrunning
  exact ⟨hrunning.unended, hrunning.kept.started, hrunning.kept.flushed, hrunning.kept.added⟩

theorem runAttempt_marks (prompt : String) :
    Effect.Moves (FlushesLate taskID start) (runAttempt request prompt) := by
  have hcomposes := FlushesLate.composes taskID start
  intro s tr r s' h
  obtain ⟨stream, tr', rfl, hrest⟩ := Effect.ends_call_bind h
  have hstream : ∀ {tr₁ : List (Event WorkerOp.Resp)} {r₁ : Except Exc Unit} {s₁ : RunState},
      (handleEvents request 0 stream.events).Ends s tr₁ r₁ s₁ →
        FlushesLate taskID start s (⟨.streamEvents prompt (workspaceTools request), stream⟩ :: tr₁) s₁ := by
    intro tr₁ r₁ s₁ h₁ hrunning hforward
    have hevents : streamed (⟨.streamEvents prompt (workspaceTools request), stream⟩ :: tr₁) =
        stream.events ++ streamed tr₁ := rfl
    rw [hevents] at hforward ⊢
    obtain ⟨hrunning', hunstreamed, htimes⟩ := handleEvents_marks [] h₁ hrunning
      (fun event hevent => hforward event (List.mem_append_left _ hevent)) rfl
    rw [streamed_unstreamed hunstreamed, List.append_nil]
    exact ⟨hrunning', fun _ => htimes⟩
  rcases Effect.ends_bind hrest with ⟨tr₁, tr₂, _, s₁, rfl, h₁, h₂⟩ | ⟨e, rfl, h₁⟩
  · apply hcomposes.trans (hstream h₁)
    split at h₂
    · exact Effect.Moves.throw hcomposes _ _ _ _ _ h₂
    · refine Effect.Moves.bind hcomposes (Effect.Moves.get hcomposes) (fun s => ?_) _ _ _ _ h₂
      apply Effect.Moves.ite
      · intro _
        apply Effect.Moves.bind hcomposes (Makes.flushesLate (Makes.attempt trivial _))
        exact fun messages => Effect.Moves.modify fun s => FlushesLate.result s _
      · exact fun _ => Effect.Moves.pure hcomposes ()
  · exact hstream h₁

theorem runAgent_marks (notify : Bool) (prompt : String) (remaining : Nat) :
    Effect.Moves (FlushesLate taskID start) (runAgent notify request prompt remaining) :=
  runAgent_attempts (FlushesLate.composes taskID start) FlushesLate.result (runAttempt_marks prompt)
    (fun hm => Makes.flushesLate (hm.mono fun _ h => h.1.quiet)) notify remaining

end Agent

/-! ## Endings -/

/-- At most one bulk write, none of them if the run raises, and no stream. -/
def WritesOnce (_ : RunState) (tr : List (Event WorkerOp.Resp)) (r : Except Exc TaskStatus)
    (_ : RunState) : Prop :=
  (∀ e ∈ tr, Unstreamed e.1) ∧ (handed tr).length ≤ 1 ∧ ∀ exc, r = .error exc → handed tr = []

section Endings
variable {start : Time} {s s' : RunState} {tr : List (Event WorkerOp.Resp)} {request : TaskRequest}

theorem WritesOnce.leads : Leads (fun _ tr _ => ∀ e ∈ tr, Quiet e.1) WritesOnce where
  composes := Effect.Calls.composes Quiet
  raise hquiet := by
    refine ⟨fun e he => (hquiet e he).unstreamed, ?_, fun _ _ => handed_quiet hquiet⟩
    rw [handed_quiet hquiet]
    exact Nat.zero_le 1
  front {s₁ tr₁ s₂ tr₂ r s₃} hquiet h := by
    obtain ⟨hunstreamed, hlength, herror⟩ := h
    unfold WritesOnce
    rw [handed_append, handed_quiet hquiet, List.nil_append]
    refine ⟨?_, hlength, herror⟩
    intro e he
    rcases List.mem_append.mp he with he | he
    · exact (hquiet e he).unstreamed
    · exact hunstreamed e he

theorem flush_writesOnce (status : TaskStatus) :
    Effect.Meets WritesOnce (do let _ ← flush; pure status) := by
  intro s tr r s' h
  obtain ⟨tr₁, tr₂, _, s₁, rfl, h₁, h₂⟩ := flush_returns.ends_bind h
  obtain ⟨rfl, rfl, rfl⟩ := Effect.ends_pure h₂
  rw [List.append_nil]
  refine ⟨fun e he => ((flush_makes _ _ _ _ h₁).2 e he).unstreamed, ?_, ?_⟩
  · rw [(flush_ends h₁).2.1]
    split
    · exact Nat.zero_le 1
    · exact Nat.le_refl 1
  · intro exc hexc
    cases hexc

theorem handleIncomplete_writesOnce (notify : Bool) (repoInfo : RepoInfo) (output : String)
    (uniqueTools : List String) :
    Effect.Meets WritesOnce (handleIncomplete notify request repoInfo output uniqueTools) := by
  have hleads := WritesOnce.leads
  apply hleads.bind (report_makes Locally.quiet _ _ _ _).calls
  intro _
  apply hleads.bind (writeFile_makes Locally.quiet _ _).calls
  intro _
  apply hleads.bind (runChecked_makes Locally.quiet _ _).calls
  intro _
  apply hleads.bind (runChecked_makes Locally.quiet _ _).calls
  intro _
  apply hleads.bind (runChecked_makes Locally.quiet _ _).calls
  intro _
  apply hleads.bind ((incompletePR_makes _ _ _).mono fun _ => OnGitHub.quiet).calls
  intro prURL
  apply hleads.bind ((commentOnPR_makes _ _).mono fun _ => Converses.quiet).calls
  intro _
  apply hleads.bind (addTaskMemory_calls trivial _)
  exact fun _ => flush_writesOnce _

theorem finishSucceeded_writesOnce (notify : Bool) (repoInfo : RepoInfo) (output : String)
    (uniqueTools : List String) :
    Effect.Meets WritesOnce (finishSucceeded notify request repoInfo output uniqueTools) := by
  have hleads := WritesOnce.leads
  apply hleads.bind (report_makes Locally.quiet _ _ _ _).calls
  intro _
  apply hleads.bind (runChecked_makes Locally.quiet _ _).calls
  intro _
  apply hleads.bind (runChecked_makes Locally.quiet _ _).calls
  intro _
  apply hleads.bind (report_makes Locally.quiet _ _ _ _).calls
  intro _
  apply hleads.bind (filesModified_makes Locally.quiet _).calls
  intro files
  apply hleads.bind (createOrUpdatePR_calls _ OnGitHub.quiet _ _ _)
  intro _
  apply hleads.bind (report_makes Locally.quiet _ _ _ _).calls
  intro _
  apply hleads.bind Makes.get.calls
  intro s
  apply hleads.bind (addTaskMemory_calls trivial _)
  intro _
  have hlast : ∀ status : TaskStatus, Effect.Meets WritesOnce (do
      report notify request.taskID 98 "Flushing memory to Elasticsearch"
      let _ ← flush
      pure status) := fun status =>
    hleads.bind (report_makes Locally.quiet _ _ _ _).calls fun _ => flush_writesOnce _
  apply Effect.Meets.ite _ (hlast _)
  exact hleads.bind (addSharedMemory_calls trivial _) fun _ => hlast _

/-- Exactly the late tool starts flush, and a run that raises has not ended. -/
def Timely (taskID : String) (start : Time) (s : RunState) (tr : List (Event WorkerOp.Resp))
    (r : Except Exc TaskStatus) (s' : RunState) : Prop :=
  Running taskID start s → (∀ event ∈ streamed tr, Forward event) →
    (∀ times, flushTimes times tr = (lateStarts start (streamed tr)).map some) ∧
      ∀ exc, r = .error exc → Unended taskID s'.buffer

theorem Timely.leads (taskID : String) (start : Time) :
    Leads (FlushesLate taskID start) (Timely taskID start) where
  composes := FlushesLate.composes taskID start
  raise hmarks hrunning hforward := by
    obtain ⟨hrunning', htimes⟩ := hmarks hrunning hforward
    exact ⟨htimes, fun _ _ => hrunning'.unended⟩
  front {s₁ tr₁ s₂ tr₂ r s₃} hmarks hends hrunning hforward := by
    rw [streamed_append] at hforward
    obtain ⟨hrunning', htimes₁⟩ := hmarks hrunning fun e he => hforward e (List.mem_append_left _ he)
    obtain ⟨htimes₂, herror⟩ := hends hrunning' fun e he => hforward e (List.mem_append_right _ he)
    refine ⟨fun times => ?_, herror⟩
    obtain ⟨times', hboth⟩ := flushTimes_append times tr₁ tr₂
    rw [hboth, htimes₁, htimes₂, streamed_append]
    simp [lateStarts, startTimes]

/-- The one bulk write of an ending has an outcome. -/
theorem Ends.flushTimes {taskID : String} {r : Except Exc TaskStatus} (h : Ends taskID s tr r s')
    (honce : WritesOnce s tr r s') (hunended : Unended taskID s.buffer) (times : List Time) :
    flushTimes times tr = [] := by
  obtain ⟨hunstreamed, hlength, herror⟩ := honce
  rw [flushTimes_unstreamed hunstreamed, List.map_eq_nil_iff, List.filter_eq_nil_iff]
  intro docs hdocs
  cases r with
  | error exc =>
    rw [herror exc rfl] at hdocs
    cases hdocs
  | ok status =>
    obtain ⟨hended, hhands⟩ := h hunended
    obtain ⟨doc, hone, _⟩ := hended.outcome
    have hall : docs = s'.buffer.allDocs := by
      unfold HandsOver at hhands
      match hhanded : handed tr with
      | [] =>
        rw [hhanded] at hdocs
        cases hdocs
      | [only] =>
        rw [hhanded] at hdocs hhands
        rw [List.mem_singleton.mp hdocs]
        exact Option.some.inj hhands
      | _ :: _ :: _ =>
        rw [hhanded] at hlength
        simp at hlength
    have hmem : doc ∈ s'.buffer.allDocs.filter hasOutcome := by
      rw [hone]
      exact List.mem_singleton_self doc
    rw [List.mem_filter, ← hall] at hmem
    simp only [Bool.not_eq_true, Bool.not_eq_false']
    exact List.any_eq_true.mpr ⟨doc, hmem⟩

theorem Timely.of_ending {m : RunM TaskStatus} {taskID : String}
    (hends : Effect.Meets (Ends taskID) m) (honce : Effect.Meets WritesOnce m) :
    Effect.Meets (Timely taskID start) m := by
  intro s tr r s' h hrunning _
  have hone := honce _ _ _ _ h
  have hend := hends _ _ _ _ h
  refine ⟨fun times => ?_, ?_⟩
  · rw [hend.flushTimes hone hrunning.unended, streamed_unstreamed hone.1]
    rfl
  · rintro exc rfl
    exact hend hrunning.unended

theorem handleFailure_writesOnce (exc : Exc) : Effect.Meets WritesOnce (handleFailure request exc) := by
  intro s tr r s' h
  obtain ⟨status, rfl, _⟩ := handleFailure_failed h
  obtain ⟨stamp, tr', _, rfl, hflush⟩ := handleFailure_ends h
  refine ⟨?_, ?_, ?_⟩
  · intro e he
    rcases List.mem_cons.mp he with rfl | he
    · trivial
    · exact ((flush_makes _ _ _ _ hflush).2 e he).unstreamed
  · have hhanded : handed (⟨.now, stamp⟩ :: tr') = handed tr' := rfl
    rw [hhanded, (flush_ends hflush).2.1]
    split
    · exact Nat.zero_le 1
    · exact Nat.le_refl 1
  · intro _ hexc
    cases hexc

theorem runBuffered_timely (githubToken : String) (notify : Bool) :
    Effect.Meets (Timely request.taskID start) (runBuffered githubToken notify request) := by
  have hleads := Timely.leads request.taskID start
  have hquiet : ∀ {α : Type} {m : RunM α}, Makes (fun o => Prepares o ∧ Tells request.taskID o) m →
      Effect.Moves (FlushesLate request.taskID start) m :=
    fun hm => Makes.flushesLate (hm.mono fun _ h => h.1.quiet)
  have hattempt : Effect.Meets (Timely request.taskID start)
      (attemptTask githubToken notify request) := by
    apply hleads.attemptTask githubToken hquiet
    apply hleads.workOn hquiet (runAgent_marks notify)
    · intro repoInfo output uniqueTools
      exact Timely.of_ending (handleIncomplete_ends notify _ _ _) (handleIncomplete_writesOnce _ _ _ _)
    · intro repoInfo output uniqueTools
      exact Timely.of_ending (finishSucceeded_ends notify _ _ _) (finishSucceeded_writesOnce _ _ _ _)
  intro s tr r s' h hrunning hforward
  rcases Effect.ends_tryCatch h with ⟨status, rfl, h₁⟩ | ⟨tr₁, tr₂, exc, s₁, rfl, h₁, h₂⟩
  · exact hattempt _ _ _ _ h₁ hrunning hforward
  · have hone := handleFailure_writesOnce exc _ _ _ _ h₂
    have hnone := streamed_unstreamed hone.1
    rw [streamed_append, hnone, List.append_nil] at hforward ⊢
    obtain ⟨htimes, herror⟩ := hattempt _ _ _ _ h₁ hrunning hforward
    have hunended := herror exc rfl
    refine ⟨fun times => ?_, ?_⟩
    · obtain ⟨times', hboth⟩ := flushTimes_append times tr₁ tr₂
      rw [hboth, htimes, (handleFailure_ends_failed exc _ _ _ _ h₂).flushTimes hone hunended,
        List.append_nil]
    · intro exc' hr
      obtain ⟨status, hstatus, _⟩ := handleFailure_failed h₂
      rw [hstatus] at hr
      cases hr

end Endings

/-! ## Whole runs -/

theorem NonDecreasing.forward {events : List AgentEvent} (h : NonDecreasing events) :
    ∀ event ∈ events, Forward event := by
  intro event hevent
  have hreadings := (List.pairwise_flatMap.mp h).1 event hevent
  cases event with
  | toolStart name elapsed sinceFlush => simpa [readings, Forward] using hreadings
  | _ => trivial

/-- The intermediate flushes of a run are those of the tools started more than five minutes
after its start, so that they are spaced only if those tool starts are. -/
theorem flushes_spaced_iff {githubToken : String} {notify : Bool} {request : TaskRequest}
    {tr : List (Event WorkerOp.Resp)} {r : Except Exc TaskStatus} {s' : RunState}
    (h : (runTask githubToken notify request).Runs tr (r, s'))
    (htime : NonDecreasing (streamed tr)) :
    ∃ start rest times, tr = ⟨.now, start⟩ :: rest ∧ flushTimes [] tr = times.map some ∧
      (Spaced start times ↔ (lateStarts start (streamed tr)).IsChain WellApart) := by
  obtain ⟨start, rest, rfl, hrun⟩ := Program.runs_call.mp h
  have hbegun : Running request.taskID start (.begin request start) :=
    ⟨Unended.begin request start, Kept.begin request start⟩
  have hstreamed : streamed (⟨.now, start⟩ :: rest) = streamed rest := rfl
  rw [hstreamed] at htime
  obtain ⟨htimes, _⟩ := runBuffered_timely githubToken notify _ _ _ _ hrun hbegun htime.forward
  refine ⟨start, rest, lateStarts start (streamed rest), rfl, htimes [], ?_⟩
  apply and_iff_right
  intro t ht
  have hmem := List.mem_of_mem_head? ht
  exact of_decide_eq_true (List.mem_filter.mp hmem).2

/-- A run whose agent starts two tools, at these times. -/
def twoTools (first second : Time) :
    List (Event WorkerOp.Resp) × (Except Exc TaskStatus × RunState) × Unit :=
  play (fun w o => match o with
    | .streamEvents _ _ =>
      (⟨[.toolStart "read_file" first first, .toolStart "list_files" second second], none⟩, w)
    | o => (demoAnswers 0 o, w)) (runTask "token" false demoRequest) ()

/-- Two tools that start six minutes apart. -/
theorem flushes_spaced_iff_demo : ∃ start rest times,
    (twoTools (seconds 301) (seconds 661)).1 = ⟨.now, start⟩ :: rest ∧
      flushTimes [] (twoTools (seconds 301) (seconds 661)).1 = times.map some ∧
      (Spaced start times ↔
        (lateStarts start (streamed (twoTools (seconds 301) (seconds 661)).1)).IsChain WellApart) := by
  apply flushes_spaced_iff (runs_play _ _ _)
  unfold NonDecreasing
  decide +kernel

/-- A tool that starts a second after one that wrote a checkpoint writes the next one. -/
theorem checkpoint_every_tool : ∃ tr r s' start rest times,
    (runTask "token" false demoRequest).Runs tr (r, s') ∧ NonDecreasing (streamed tr) ∧
      tr = ⟨.now, start⟩ :: rest ∧ flushTimes [] tr = times.map some ∧ ¬ Spaced start times := by
  have htime : NonDecreasing (streamed (twoTools (seconds 301) (seconds 302)).1) := by
    unfold NonDecreasing
    decide +kernel
  have hflushes : flushTimes [] (twoTools (seconds 301) (seconds 302)).1 =
      [seconds 301, seconds 302].map some := by decide +kernel
  refine ⟨_, _, _, 0, _, [seconds 301, seconds 302], runs_play _ _ _, htime, rfl, hflushes, ?_⟩
  simp [Spaced, WellApart, seconds, MemoryWriteBuffer.maxRuntimeSeconds]

end BulletFarm.Worker
