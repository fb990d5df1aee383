import BulletFarm.Worker.Flush

/-!
# Runs under two GitHub tokens

The token enters the command of the clone only. Everything around the worker is fixed,
and answers that command the same way whatever the token is.
-/

namespace BulletFarm.Worker

open Interaction Python

set_option autoImplicit false

/-! ## The clone -/

/-- A run up to the clone. -/
def opening (notify : Bool) (request : TaskRequest) : Program WorkerOp WorkerOp.Resp Time := do
  let startTime ← .perform .now
  if notify then
    let _ ← .perform (.progress request.taskID 10 "Cloning repository")
  pure startTime

/-- A run from the outcome of the clone on. -/
def afterClone (notify : Bool) (request : TaskRequest) (outcome : Except Exc CompletedProcess) :
    RunM TaskStatus :=
  tryCatch (Effect.ofExcept outcome >>= fun _ => workOn notify request) (handleFailure request)

theorem runTask_eq (githubToken : String) (notify : Bool) (request : TaskRequest) :
    runTask githubToken notify request = opening notify request >>= fun startTime =>
      .call (.run (cloneCommand githubToken request) none) fun answer =>
        (afterClone notify request (checked (cloneCommand githubToken request) answer)).start
          (.begin request startTime) := by
  cases notify with
  | false => rfl
  | true => rfl

theorem checked_congr (cmd cmd' : List String) {answer : Except Exc CompletedProcess}
    (h : ∀ p, answer = .ok p → p.returncode = 0) : checked cmd answer = checked cmd' answer := by
  cases answer with
  | error exc => rfl
  | ok p =>
    have hchecked : ∀ cmd, checked cmd (.ok p) = .ok p := fun cmd => if_pos (h p rfl)
    rw [hchecked, hchecked]

theorem checked_nonzero (cmd : List String) {p : CompletedProcess} (h : p.returncode ≠ 0) :
    checked cmd (.ok p) = .error (calledProcessError cmd p.returncode) := if_neg h

/-! ## The text of a clone that exits with an error -/

theorem calledProcessError_text (returncode : Int) : ∃ suffix, ∀ cmd,
    (calledProcessError cmd returncode).text = "Command '" ++ reprStrings cmd ++ suffix := by
  unfold calledProcessError
  by_cases hsignal : returncode < 0
  · simp only [if_pos hsignal]
    cases hname : signalName? returncode.natAbs with
    | some name =>
      refine ⟨"' died with <Signals." ++ name ++ ": " ++ toString returncode.natAbs ++ ">.", ?_⟩
      intro cmd
      simp only [String.append_assoc]
    | none =>
      refine ⟨"' died with unknown signal " ++ toString returncode.natAbs ++ ".", ?_⟩
      intro cmd
      simp only [String.append_assoc]
  · simp only [if_neg hsignal]
    refine ⟨"' returned non-zero exit status " ++ toString returncode ++ ".", ?_⟩
    intro cmd
    simp only [String.append_assoc]

theorem length_reprString_insert (before after : List Char) :
    (reprString (String.ofList (before ++ 'a' :: after))).length =
      (reprString (String.ofList (before ++ after))).length + 1 := by
  have hquote : reprQuote (before ++ 'a' :: after) = reprQuote (before ++ after) := by
    have hmem : ∀ c, c ≠ 'a' → (c ∈ before ++ 'a' :: after ↔ c ∈ before ++ after) := by
      intro c hc
      rw [List.mem_append, List.mem_cons, List.mem_append, or_iff_right hc]
    unfold reprQuote
    simp only [hmem _ (by decide : ('\x27' : Char) ≠ 'a'), hmem _ (by decide : '"' ≠ 'a')]
  have hletter : ∀ quote, quote = '"' ∨ quote = '\x27' → reprChar quote 'a' = ['a'] := by
    rintro quote (rfl | rfl) <;> rfl
  have hdelimiter : ∀ l, reprQuote l = '"' ∨ reprQuote l = '\x27' := by
    intro l
    unfold reprQuote
    split
    · exact Or.inl rfl
    · exact Or.inr rfl
  unfold reprString
  rw [String.toList_ofList, String.toList_ofList, hquote]
  simp only [List.flatMap_append, List.flatMap_cons, hletter _ (hdelimiter _), List.length_cons,
    List.length_append, List.length_nil]
  omega

theorem length_reprString_append (before host path suffix : String) :
    (reprString (before ++ "a" ++ host ++ path ++ suffix)).length =
      (reprString (before ++ "" ++ host ++ path ++ suffix)).length + 1 := by
  have hletter : before ++ "a" ++ host ++ path ++ suffix =
      String.ofList (before.toList ++ 'a' :: (host ++ path ++ suffix).toList) := by
    apply String.toList_injective
    simp
  have hempty : before ++ "" ++ host ++ path ++ suffix =
      String.ofList (before.toList ++ (host ++ path ++ suffix).toList) := by
    apply String.toList_injective
    simp
  rw [hletter, hempty]
  exact length_reprString_insert _ _

theorem length_reprStrings_clone (request : TaskRequest) :
    (reprStrings (cloneCommand "a" request)).length =
      (reprStrings (cloneCommand "" request)).length + 1 := by
  have hurl : (reprString (cloneURL "a" request)).length =
      (reprString (cloneURL "" request)).length + 1 :=
    length_reprString_append "https://x-access-token:" "@github.com/" request.repository ".git"
  unfold cloneCommand reprStrings
  split
  · simp only [List.map_cons, List.map_nil, reprValue, reprItems, String.length_ofList,
      List.length_cons, List.length_append, hurl]
    omega
  · simp only [List.map_cons, List.map_nil, reprValue, reprItems, String.length_ofList,
      List.length_cons, List.length_append, hurl]
    omega

theorem cloneError_ne (request : TaskRequest) (returncode : Int) :
    (calledProcessError (cloneCommand "a" request) returncode).text ≠
      (calledProcessError (cloneCommand "" request) returncode).text := by
  obtain ⟨suffix, htext⟩ := calledProcessError_text returncode
  rw [htext, htext]
  intro h
  have hlength := congrArg String.length h
  simp only [String.length_append, length_reprStrings_clone] at hlength
  omega

/-! ## What the handler of a failure hands over -/

theorem failure_error (b : MemoryWriteBuffer) (stamp : Time) (request : TaskRequest) (exc : Exc) :
    Json.Value.lookup "error" (b.taskDocument stamp (failureDoc request exc)) = some (.str exc.text) :=
  b.lookup_taskDocument stamp rfl

section Failure
variable {request : TaskRequest} {exc : Exc} {s s' : RunState} {tr : List (Event WorkerOp.Resp)}

theorem handleFailure_hands {r : Except Exc TaskStatus}
    (h : (handleFailure request exc).Ends s tr r s') :
    ∃ stamp, handed tr = [(s.addTask stamp (failureDoc request exc)).buffer.allDocs] := by
  obtain ⟨stamp, tr', _, rfl, hflush⟩ := handleFailure_ends h
  obtain ⟨_, hhanded, _⟩ := flush_ends hflush
  have hsome := addTask_allDocs s stamp (failureDoc request exc)
  rw [if_neg (by rwa [List.isEmpty_iff])] at hhanded
  exact ⟨stamp, hhanded⟩

/-- With nothing buffered before, what is handed over tells the text of the exception. -/
theorem failure_text {exc' : Exc} {startTime stamp stamp' : Time}
    (h : [((RunState.begin request startTime).addTask stamp (failureDoc request exc)).buffer.allDocs] =
      [((RunState.begin request startTime).addTask stamp' (failureDoc request exc')).buffer.allDocs]) :
    exc.text = exc'.text := by
  have hdocs := List.singleton_inj.mp h
  have hdoc := congrArg (fun docs => docs.head?.map (Json.Value.lookup "error")) hdocs
  change some (Json.Value.lookup "error" _) = some (Json.Value.lookup "error" _) at hdoc
  rw [failure_error, failure_error] at hdoc
  exact Json.Value.str.inj (Option.some.inj (Option.some.inj hdoc))

end Failure

/-! ## Two runs -/

def answerRun {W : Type} (answer : W → (o : WorkerOp) → o.Resp × W) (w : W) (cmd : List String) :
    Except Exc CompletedProcess × W :=
  answer w (.run cmd none)

/-- What surrounds the worker: how it answers in each of its states. Git is the same under
every token. -/
structure Surroundings (W : Type) where
  answer : W → (o : WorkerOp) → o.Resp × W
  blind : ∀ (w : W) (request : TaskRequest) (token token' : String),
    answerRun answer w (cloneCommand token request) = answerRun answer w (cloneCommand token' request)

namespace Surroundings
variable {W : Type} (b : Surroundings W) (notify : Bool) (request : TaskRequest) (w : W)

def run (githubToken : String) : List (Event WorkerOp.Resp) × (Except Exc TaskStatus × RunState) × W :=
  play b.answer (runTask githubToken notify request) w

def status (githubToken : String) : Except Exc TaskStatus := (b.run notify request w githubToken).2.1.1

/-- What the run hands to its bulk calls. -/
def documents (githubToken : String) : List (List Dict) := handed (b.run notify request w githubToken).1

/-- The trace, the time of the start and the world before the clone. -/
def opened : List (Event WorkerOp.Resp) × Time × W := play b.answer (opening notify request) w

/-- How the clone is answered, and what becomes of the world. -/
def cloned (githubToken : String) : Except Exc CompletedProcess × W :=
  answerRun b.answer (b.opened notify request w).2.2 (cloneCommand githubToken request)

/-- The run from an outcome of the clone on. -/
def after (outcome : Except Exc CompletedProcess) (w' : W) :
    List (Event WorkerOp.Resp) × (Except Exc TaskStatus × RunState) × W :=
  play b.answer ((afterClone notify request outcome).start
    (.begin request (b.opened notify request w).2.1)) w'

theorem cloned_eq (token token' : String) :
    b.cloned notify request w token = b.cloned notify request w token' :=
  b.blind _ request token token'

theorem run_eq (githubToken : String) :
    b.run notify request w githubToken =
      let clone := b.cloned notify request w githubToken
      let rest := b.after notify request w
        (checked (cloneCommand githubToken request) clone.1) clone.2
      ((b.opened notify request w).1 ++
        ⟨.run (cloneCommand githubToken request) none, clone.1⟩ :: rest.1, rest.2) := by
  unfold run
  rw [runTask_eq, play_bind]
  rfl

/-- The status and the documents, in terms of what comes after the clone. -/
theorem status_eq (githubToken : String) :
    b.status notify request w githubToken =
      (b.after notify request w (checked (cloneCommand githubToken request)
        (b.cloned notify request w githubToken).1) (b.cloned notify request w githubToken).2).2.1.1 := by
  unfold status
  rw [run_eq]

theorem documents_eq (githubToken : String) :
    b.documents notify request w githubToken =
      handed (b.opened notify request w).1 ++
        handed (b.after notify request w (checked (cloneCommand githubToken request)
          (b.cloned notify request w githubToken).1) (b.cloned notify request w githubToken).2).1 := by
  unfold documents
  rw [run_eq, handed_append]
  rfl

/-- The document of a clone that exits with an error has the command, and the token in it. -/
theorem documents_ne {token : String} {p : CompletedProcess}
    (hp : (b.cloned notify request w token).1 = .ok p) (hexit : p.returncode ≠ 0) :
    b.documents notify request w "a" ≠ b.documents notify request w "" := by
  intro hdocs
  have hcloned : ∀ token', (b.cloned notify request w token').1 = .ok p := by
    intro token'
    rw [b.cloned_eq notify request w token' token, hp]
  rw [documents_eq, documents_eq, hcloned, hcloned, checked_nonzero _ hexit,
    checked_nonzero _ hexit] at hdocs
  have hrests := List.append_cancel_left hdocs
  have hfailure : ∀ cmd, ∃ stamp, handed (b.after notify request w
      (.error (calledProcessError cmd p.returncode)) (b.cloned notify request w "").2).1 =
      [((RunState.begin request (b.opened notify request w).2.1).addTask stamp
        (failureDoc request (calledProcessError cmd p.returncode))).buffer.allDocs] := by
    intro cmd
    exact handleFailure_hands (runs_play b.answer _ _)
  rw [b.cloned_eq notify request w "a" ""] at hrests
  obtain ⟨stamp, hfirst⟩ := hfailure (cloneCommand "a" request)
  obtain ⟨stamp', hsecond⟩ := hfailure (cloneCommand "" request)
  apply cloneError_ne request p.returncode
  exact failure_text (hfirst.symm.trans (hrests.trans hsecond))

/-- Nothing depends on the token exactly if the clone does not exit with an error. -/
theorem token_hidden_iff :
    (∀ token token', b.status notify request w token = b.status notify request w token' ∧
        b.documents notify request w token = b.documents notify request w token') ↔
      ∀ token p, (b.cloned notify request w token).1 = .ok p → p.returncode = 0 := by
  constructor
  · intro hsame token p hp
    by_contra hexit
    exact b.documents_ne notify request w hp hexit (hsame "a" "").2
  · intro hexit token token'
    have hchecked := checked_congr (cloneCommand token request) (cloneCommand token' request)
      (hexit token)
    constructor
    · rw [status_eq, status_eq, hchecked, b.cloned_eq notify request w token token']
    · rw [documents_eq, documents_eq, hchecked, b.cloned_eq notify request w token token']

end Surroundings

/-- Every process exits with 128, as git does when it cannot clone. -/
def failingClone : Surroundings Unit where
  answer w
    | .run _ _ => (.ok ⟨128, ""⟩, w)
    | o => (o.benign, w)
  blind _ _ _ _ := rfl

theorem token_in_document : failingClone.documents false demoRequest () "a" ≠
    failingClone.documents false demoRequest () "" := by
  have hcloned : (failingClone.cloned false demoRequest () "").1 = .ok ⟨128, ""⟩ := rfl
  exact failingClone.documents_ne false demoRequest () hcloned (by decide)

end BulletFarm.Worker
