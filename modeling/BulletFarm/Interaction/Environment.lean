import BulletFarm.Interaction.Program

/-!
# Environments, pools of threads, and what holds in every state they reach

An environment says which answers a call may get in a world and what the world
is afterwards, and how the world moves on its own. A pool runs any number of
programs against it, one call at a time and in any order; a thread may stop at
any point. `Keeps` is the rely-guarantee condition under which an invariant of
the world survives every such run.
-/

namespace Interaction

set_option autoImplicit false

open Relation

/-- The outside world, as a relation between calls and their answers. -/
structure Environment (Op : Type) (Resp : Op → Type) (W : Type) where
  answer : W → (o : Op) → Resp o → W → Prop
  drift : W → W → Prop

variable {Op : Type} {Resp : Op → Type} {W M α β ι : Type}

namespace Environment

/-- The same environment, giving only the answers that meet a condition. -/
def restrict (env : Environment Op Resp W) (cond : W → (o : Op) → Resp o → W → Prop) :
    Environment Op Resp W where
  answer w o r w' := env.answer w o r w' ∧ cond w o r w'
  drift := env.drift

/-- The same environment, moving on its own only where a condition is met. -/
def restrictDrift (env : Environment Op Resp W) (cond : W → W → Prop) : Environment Op Resp W where
  answer := env.answer
  drift w w' := env.drift w w' ∧ cond w w'

/-- The same environment beside a history variable, which only looks on. -/
def watched (env : Environment Op Resp W) (next : M → W → (o : Op) → Resp o → M) :
    Environment Op Resp (W × M) where
  answer w o r w' := env.answer w.1 o r w'.1 ∧ w'.2 = next w.2 w.1 o r
  drift w w' := env.drift w.1 w'.1 ∧ w'.2 = w.2

end Environment

/-- One complete run of a program, with the calls it made. The world may move on
its own before, between and after the calls. -/
inductive Executes (env : Environment Op Resp W) :
    Program Op Resp α → W → List (Event Resp) → α → W → Prop where
  | ret (a : α) (w : W) : Executes env (.ret a) w [] a w
  | call {o : Op} {next : Resp o → Program Op Resp α} {w w₁ w₂ : W} {r : Resp o}
      {tr : List (Event Resp)} {a : α} :
      env.answer w o r w₁ → Executes env (next r) w₁ tr a w₂ →
        Executes env (.call o next) w (⟨o, r⟩ :: tr) a w₂
  | drift {p : Program Op Resp α} {w w₁ w₂ : W} {tr : List (Event Resp)} {a : α} :
      env.drift w w₁ → Executes env p w₁ tr a w₂ → Executes env p w tr a w₂

namespace Executes

variable {env : Environment Op Resp W}

theorem runs {p : Program Op Resp α} {w w' : W} {tr : List (Event Resp)} {a : α}
    (h : Executes env p w tr a w') : p.Runs tr a := by
  induction h with
  | ret a w => exact .ret a
  | call _ _ ih => exact .call _ ih
  | drift _ _ ih => exact ih

theorem of_ret {a b : α} {w w' : W} {tr : List (Event Resp)}
    (h : Executes env (.ret a) w tr b w') : tr = [] ∧ b = a ∧ ReflTransGen env.drift w w' := by
  generalize hp : (Program.ret a : Program Op Resp α) = p at h
  induction h with
  | ret b w =>
    cases hp
    exact ⟨rfl, rfl, .refl⟩
  | call _ _ _ => cases hp
  | drift hd _ ih =>
    obtain ⟨htr, hb, hw⟩ := ih hp
    exact ⟨htr, hb, .head hd hw⟩

theorem of_call {o : Op} {next : Resp o → Program Op Resp α} {a : α} {w w' : W}
    {tr : List (Event Resp)} (h : Executes env (.call o next) w tr a w') :
    ∃ w₁ r w₂ tr', ReflTransGen env.drift w w₁ ∧ env.answer w₁ o r w₂ ∧
      tr = ⟨o, r⟩ :: tr' ∧ Executes env (next r) w₂ tr' a w' := by
  generalize hp : Program.call o next = p at h
  induction h with
  | ret b w => cases hp
  | call ha hn _ =>
    cases hp
    exact ⟨_, _, _, _, .refl, ha, rfl, hn⟩
  | drift hd _ ih =>
    obtain ⟨w₁, r, w₂, tr', hw, ha, htr, hn⟩ := ih hp
    exact ⟨w₁, r, w₂, tr', .head hd hw, ha, htr, hn⟩

theorem of_bind {p : Program Op Resp α} {f : α → Program Op Resp β} {b : β} {w w' : W}
    {tr : List (Event Resp)} (h : Executes env (p >>= f) w tr b w') :
    ∃ tr₁ tr₂ a w₁, tr = tr₁ ++ tr₂ ∧ Executes env p w tr₁ a w₁ ∧ Executes env (f a) w₁ tr₂ b w' := by
  induction p generalizing w tr with
  | ret a => exact ⟨[], tr, a, w, rfl, .ret a w, h⟩
  | call o next ih =>
    rw [Program.call_bind] at h
    obtain ⟨w₁, r, w₂, tr', hd, ha, rfl, hn⟩ := of_call h
    obtain ⟨tr₁, tr₂, a, w₃, rfl, h₁, h₂⟩ := ih r hn
    refine ⟨⟨o, r⟩ :: tr₁, tr₂, a, w₃, rfl, ?_, h₂⟩
    have hcall : Executes env (.call o next) w₁ (⟨o, r⟩ :: tr₁) a w₃ := .call ha h₁
    clear h ha h₁ h₂ hn
    induction hd using ReflTransGen.head_induction_on with
    | refl => exact hcall
    | head hstep _ ih' => exact .drift hstep ih'

end Executes

/-! ## Answers as a function of the world -/

/-- The trace, the result and the last world of a run whose answers are given by `f`. -/
def play (f : W → (o : Op) → Resp o × W) :
    Program Op Resp α → W → List (Event Resp) × α × W
  | .ret a, w => ([], a, w)
  | .call o next, w =>
    let rest := play f (next (f w o).1) (f w o).2
    (⟨o, (f w o).1⟩ :: rest.1, rest.2)

theorem play_bind {β : Type} (f : W → (o : Op) → Resp o × W) (p : Program Op Resp α)
    (g : α → Program Op Resp β) (w : W) :
    play f (p >>= g) w =
      ((play f p w).1 ++ (play f (g (play f p w).2.1) (play f p w).2.2).1,
        (play f (g (play f p w).2.1) (play f p w).2.2).2) := by
  induction p generalizing w with
  | ret a => rfl
  | call o next ih =>
    rw [Program.call_bind, play, ih]
    rfl

theorem Executes.of_play {env : Environment Op Resp W} {f : W → (o : Op) → Resp o × W}
    (hf : ∀ w o, env.answer w o (f w o).1 (f w o).2) (p : Program Op Resp α) (w : W) :
    Executes env p w (play f p w).1 (play f p w).2.1 (play f p w).2.2 := by
  induction p generalizing w with
  | ret a => exact .ret a w
  | call o next ih => exact .call (hf w o) (ih (f w o).1 (f w o).2)

/-- Every call of such a run meets a condition. -/
def PlaysWithin (cond : W → (o : Op) → Resp o → W → Prop) (f : W → (o : Op) → Resp o × W) :
    Program Op Resp α → W → Prop
  | .ret _, _ => True
  | .call o next, w =>
    cond w o (f w o).1 (f w o).2 ∧ PlaysWithin cond f (next (f w o).1) (f w o).2

instance PlaysWithin.decidable (cond : W → (o : Op) → Resp o → W → Prop)
    [∀ w o r w', Decidable (cond w o r w')] (f : W → (o : Op) → Resp o × W) :
    (p : Program Op Resp α) → (w : W) → Decidable (PlaysWithin cond f p w)
  | .ret _, _ => isTrue trivial
  | .call o next, w =>
    have := PlaysWithin.decidable cond f (next (f w o).1) (f w o).2
    inferInstanceAs (Decidable (_ ∧ _))

/-- A condition on the calls may be traded for another where something is kept. -/
theorem PlaysWithin.of_keeps {cond cond' : W → (o : Op) → Resp o → W → Prop}
    {f : W → (o : Op) → Resp o × W} {p : Program Op Resp α} {w : W} (h : PlaysWithin cond f p w)
    (keep : W → Prop) (hw : keep w) (hkeep : ∀ w o, keep w → keep (f w o).2)
    (hcond : ∀ w o r w', keep w → cond w o r w' → cond' w o r w') : PlaysWithin cond' f p w := by
  induction p generalizing w with
  | ret a => trivial
  | call o next ih => exact ⟨hcond _ _ _ _ hw h.1, ih (f w o).1 h.2 (hkeep w o hw)⟩

theorem Executes.of_playsWithin {env : Environment Op Resp W}
    {cond : W → (o : Op) → Resp o → W → Prop} {f : W → (o : Op) → Resp o × W}
    (hf : ∀ w o, cond w o (f w o).1 (f w o).2 → env.answer w o (f w o).1 (f w o).2)
    {p : Program Op Resp α} {w : W} (hp : PlaysWithin cond f p w) :
    Executes env p w (play f p w).1 (play f p w).2.1 (play f p w).2.2 := by
  induction p generalizing w with
  | ret a => exact .ret a w
  | call o next ih => exact .call (hf w o hp.1) (ih (f w o).1 hp.2)

theorem Executes.of_play_restrict {env : Environment Op Resp W}
    {cond : W → (o : Op) → Resp o → W → Prop} {f : W → (o : Op) → Resp o × W}
    (hf : ∀ w o, env.answer w o (f w o).1 (f w o).2) {p : Program Op Resp α} {w : W}
    (hp : PlaysWithin cond f p w) :
    Executes (env.restrict cond) p w (play f p w).1 (play f p w).2.1 (play f p w).2.2 := by
  refine of_playsWithin ?_ hp
  exact fun w o hcond => ⟨hf w o, hcond⟩

/-- The same answers beside a history variable. -/
def watching (f : W → (o : Op) → Resp o × W) (next : M → W → (o : Op) → Resp o → M) :
    W × M → (o : Op) → Resp o × (W × M) :=
  fun w o => ((f w.1 o).1, (f w.1 o).2, next w.2 w.1 o (f w.1 o).1)

theorem answer_watching {env : Environment Op Resp W} {f : W → (o : Op) → Resp o × W}
    (hf : ∀ w o, env.answer w o (f w o).1 (f w o).2) (next : M → W → (o : Op) → Resp o → M)
    (w : W × M) (o : Op) :
    (env.watched next).answer w o (watching f next w o).1 (watching f next w o).2 :=
  ⟨hf w.1 o, rfl⟩

theorem drifts_watched {env : Environment Op Resp W} {next : M → W → (o : Op) → Resp o → M}
    {w w' : W} (h : ReflTransGen env.drift w w') (m : M) :
    ReflTransGen (env.watched next).drift (w, m) (w', m) := by
  induction h with
  | refl => exact .refl
  | tail _ hd ih => exact ih.tail ⟨hd, rfl⟩

/-- The state of a pool: the world, and what each busy thread still has to do. -/
structure Pool (ι : Type) (Op : Type) (Resp : Op → Type) (α W : Type) where
  world : W
  thread : ι → Option (Program Op Resp α)

namespace Pool

/-- Every thread idle. -/
def idle (w : W) : Pool ι Op Resp α W := ⟨w, fun _ => none⟩

@[simp] theorem idle_world (w : W) : (idle w : Pool ι Op Resp α W).world = w := rfl

@[simp] theorem idle_thread (w : W) (i : ι) :
    (idle w : Pool ι Op Resp α W).thread i = none := rfl

variable [DecidableEq ι]

/-- Thread `i` is left with `p`. -/
def set (c : Pool ι Op Resp α W) (i : ι) (p : Option (Program Op Resp α)) : Pool ι Op Resp α W :=
  { c with thread := fun j => if j = i then p else c.thread j }

/-- One step of a pool whose idle threads may start `entry`. A thread stops when
it returns, and may stop at any other point as well. -/
inductive Step (env : Environment Op Resp W) (entry : ι → Program Op Resp α) :
    Pool ι Op Resp α W → Pool ι Op Resp α W → Prop where
  | start {c : Pool ι Op Resp α W} (i : ι) : c.thread i = none →
      Step env entry c (c.set i (some (entry i)))
  | call {c : Pool ι Op Resp α W} {i : ι} {o : Op} {next : Resp o → Program Op Resp α}
      {r : Resp o} {w : W} : c.thread i = some (.call o next) → env.answer c.world o r w →
      Step env entry c { c.set i (some (next r)) with world := w }
  | stop {c : Pool ι Op Resp α W} (i : ι) : Step env entry c (c.set i none)
  | drift {c : Pool ι Op Resp α W} {w : W} : env.drift c.world w →
      Step env entry c { c with world := w }

/-- The states a pool reaches from a world with every thread idle. -/
def Reachable (env : Environment Op Resp W) (entry : ι → Program Op Resp α) (w : W) :
    Pool ι Op Resp α W → Prop :=
  ReflTransGen (Step env entry) (idle w)

variable {env : Environment Op Resp W} {entry : ι → Program Op Resp α}

theorem set_thread (c : Pool ι Op Resp α W) (i j : ι) (p : Option (Program Op Resp α)) :
    (c.set i p).thread j = if j = i then p else c.thread j := rfl

end Pool

/-- Run from `w`, the program keeps the invariant, moves the world only as `guar`
allows and returns only in worlds of `post`, while the world is moved by others
as `rely` allows. -/
def Keeps (env : Environment Op Resp W) (inv : W → Prop) (rely guar : W → W → Prop)
    (post : α → W → Prop) : Program Op Resp α → W → Prop
  | .ret a, w => post a w
  | .call o next, w => ∀ r w₁, env.answer w o r w₁ → inv w₁ ∧ guar w w₁ ∧
      ∀ w₂, ReflTransGen rely w₁ w₂ → inv w₂ → Keeps env inv rely guar post (next r) w₂

namespace Keeps

variable {env : Environment Op Resp W} {inv : W → Prop} {rely guar : W → W → Prop}

@[simp] theorem ret {post : α → W → Prop} {a : α} {w : W} :
    Keeps env inv rely guar post (.ret a) w ↔ post a w := Iff.rfl

theorem mono {post post' : α → W → Prop} {p : Program Op Resp α} {w : W}
    (h : Keeps env inv rely guar post p w) (hpost : ∀ a w, post a w → post' a w) :
    Keeps env inv rely guar post' p w := by
  induction p generalizing w with
  | ret a => exact hpost a w h
  | call o next ih =>
    intro r w₁ ha
    obtain ⟨hi, hg, hn⟩ := h r w₁ ha
    exact ⟨hi, hg, fun w₂ hw hi₂ => ih r (hn w₂ hw hi₂)⟩

/-- The rule for one call: an assertion that the others cannot break carries what
the answer established over to the rest of the program. -/
theorem call {post : α → W → Prop} {o : Op} {next : Resp o → Program Op Resp α} {w : W}
    (mid : Resp o → W → Prop)
    (stable : ∀ r w₁ w₂, mid r w₁ → rely w₁ w₂ → inv w₂ → mid r w₂)
    (rely_inv : ∀ w₁ w₂, inv w₁ → rely w₁ w₂ → inv w₂)
    (first : ∀ r w₁, env.answer w o r w₁ → inv w₁ ∧ guar w w₁ ∧ mid r w₁)
    (rest : ∀ r w₁, inv w₁ → mid r w₁ → Keeps env inv rely guar post (next r) w₁) :
    Keeps env inv rely guar post (.call o next) w := by
  intro r w₁ ha
  obtain ⟨hi, hg, hm⟩ := first r w₁ ha
  refine ⟨hi, hg, fun w₂ hw hi₂ => rest r w₂ hi₂ ?_⟩
  have hboth : inv w₂ ∧ mid r w₂ := by
    clear hi₂
    induction hw with
    | refl => exact ⟨hi, hm⟩
    | tail _ hstep ih =>
      have hnew := rely_inv _ _ ih.1 hstep
      exact ⟨hnew, stable r _ _ ih.2 hstep hnew⟩
  exact hboth.2

theorem of_uses {ok : Op → Prop} {keep : W → Prop} {p : Program Op Resp α} {w : W}
    (hp : p.Uses ok) (hw : keep w)
    (stable : ∀ w₁ w₂, keep w₁ → rely w₁ w₂ → keep w₂)
    (step : ∀ o, ok o → ∀ w r w', keep w → env.answer w o r w' → inv w' ∧ guar w w' ∧ keep w') :
    Keeps env inv rely guar (fun _ w => keep w) p w := by
  induction p generalizing w with
  | ret a => exact hw
  | call o next ih =>
    intro r w₁ ha
    obtain ⟨hi, hg, hk⟩ := step o hp.1 w r w₁ hw ha
    refine ⟨hi, hg, fun w₂ hd hi₂ => ih r (hp.2 r) ?_⟩
    clear hi₂
    induction hd with
    | refl => exact hk
    | tail _ hstep ih' => exact stable _ _ ih' hstep

/-- The same for calls that depend on the answers so far, and an assertion about them. -/
theorem of_follows {ok : List (Event Resp) → Op → Prop} {keep : List (Event Resp) → W → Prop}
    {p : Program Op Resp α} {tr : List (Event Resp)} {w : W} (hp : p.Follows ok tr)
    (hw : keep tr w) (stable : ∀ tr w₁ w₂, keep tr w₁ → rely w₁ w₂ → keep tr w₂)
    (step : ∀ tr o, ok tr o → ∀ w r w', keep tr w → env.answer w o r w' →
      inv w' ∧ guar w w' ∧ keep (tr ++ [⟨o, r⟩]) w') :
    Keeps env inv rely guar (fun _ w => ∃ tr, keep tr w) p w := by
  induction p generalizing w tr with
  | ret a => exact ⟨tr, hw⟩
  | call o next ih =>
    intro r w₁ ha
    obtain ⟨hi, hg, hk⟩ := step tr o hp.1 w r w₁ hw ha
    refine ⟨hi, hg, fun w₂ hd hi₂ => ih r (hp.2 r) ?_⟩
    clear hi₂
    induction hd with
    | refl => exact hk
    | tail _ hstep ih' => exact stable _ _ _ ih' hstep

theorem bind {mid : α → W → Prop} {post : β → W → Prop} {p : Program Op Resp α}
    {f : α → Program Op Resp β} {w : W} (hp : Keeps env inv rely guar mid p w)
    (hf : ∀ a w, mid a w → Keeps env inv rely guar post (f a) w) :
    Keeps env inv rely guar post (p >>= f) w := by
  induction p generalizing w with
  | ret a => exact hf a w hp
  | call o next ih =>
    intro r w₁ ha
    obtain ⟨hi, hg, hn⟩ := hp r w₁ ha
    exact ⟨hi, hg, fun w₂ hw hi₂ => ih r (hn w₂ hw hi₂)⟩

theorem executes {post : α → W → Prop} {p : Program Op Resp α} {w w' : W}
    {tr : List (Event Resp)} {a : α}
    (h : ∀ w₁, ReflTransGen env.drift w w₁ → Keeps env inv env.drift guar post p w₁)
    (drift_inv : ∀ w₁ w₂, inv w₁ → env.drift w₁ w₂ → inv w₂)
    (hx : Executes env p w tr a w') : post a w' := by
  induction hx with
  | ret a w => exact h w .refl
  | call ha _ ih =>
    obtain ⟨hi, _, hn⟩ := h _ .refl _ _ ha
    apply ih
    intro w₂ hd
    refine hn w₂ hd ?_
    clear ih
    induction hd with
    | refl => exact hi
    | tail _ hstep ih => exact drift_inv _ _ ih hstep
  | drift hd _ ih => exact ih fun w₂ h₂ => h w₂ (.head hd h₂)

end Keeps

namespace Pool

variable [DecidableEq ι] {env : Environment Op Resp W} {entry : ι → Program Op Resp α}

/-- The invariant rule: what every thread keeps, relying on what the others and
the world itself guarantee, holds in every state the pool reaches. -/
theorem Reachable.invariant (inv : W → Prop) (rely guar : ι → W → W → Prop)
    (drift_inv : ∀ w w', inv w → env.drift w w' → inv w')
    (drift_rely : ∀ i w w', env.drift w w' → rely i w w')
    (guar_rely : ∀ i j w w', i ≠ j → guar i w w' → rely j w w')
    (threads : ∀ i w, inv w → Keeps env inv (rely i) (guar i) (fun _ _ => True) (entry i) w)
    {w₀ : W} (h₀ : inv w₀) {c : Pool ι Op Resp α W} (hc : Reachable env entry w₀ c) :
    inv c.world := by
  suffices h : inv c.world ∧ ∀ i p, c.thread i = some p →
      ∀ w, ReflTransGen (rely i) c.world w → inv w →
        Keeps env inv (rely i) (guar i) (fun _ _ => True) p w from h.1
  induction hc with
  | refl => exact ⟨h₀, fun i p h => by simp at h⟩
  | @tail c c' _ hstep ih =>
    obtain ⟨hinv, hthr⟩ := ih
    cases hstep with
    | start i hi =>
      refine ⟨hinv, fun j p hj w hw hwinv => ?_⟩
      rw [set_thread] at hj
      split at hj
      · rename_i hji
        cases hj
        exact hji ▸ threads i w hwinv
      · exact hthr j p hj w hw hwinv
    | @call i o next r w hi ha =>
      have hcall := hthr i _ hi c.world .refl hinv r w ha
      refine ⟨hcall.1, fun j p hj w' hw' hwinv => ?_⟩
      change (c.set i (some (next r))).thread j = some p at hj
      rw [set_thread] at hj
      split at hj
      · rename_i hji
        cases hj
        exact hji ▸ hcall.2.2 w' (hji ▸ hw') hwinv
      · rename_i hji
        exact hthr j p hj w' (.head (guar_rely i j _ _ (Ne.symm hji) hcall.2.1) hw') hwinv
    | stop i =>
      refine ⟨hinv, fun j p hj w hw hwinv => ?_⟩
      rw [set_thread] at hj
      split at hj
      · cases hj
      · exact hthr j p hj w hw hwinv
    | @drift w hd =>
      exact ⟨drift_inv _ _ hinv hd, fun j p hj w' hw' hwinv =>
        hthr j p hj w' (.head (drift_rely j _ _ hd) hw') hwinv⟩

/-- A thread that is started and runs to its end takes the pool with it. -/
theorem Reachable.execute {w₀ w w' : W} {i : ι} {tr : List (Event Resp)} {a : α}
    (hc : Reachable env entry w₀ (idle w : Pool ι Op Resp α W))
    (h : Executes env (entry i) w tr a w') :
    Reachable env entry w₀ (idle w' : Pool ι Op Resp α W) := by
  have hstop : ∀ (w : W) (p : Program Op Resp α),
      Step env entry ((idle w).set i (some p)) (idle w) := by
    intro w p
    have hset : ((idle w).set i (some p)).set i none = (idle w : Pool ι Op Resp α W) := by
      simp only [set, idle]
      congr 1
      funext j
      split <;> rfl
    have hs : Step env entry _ _ := Step.stop (c := (idle w).set i (some p)) i
    rwa [hset] at hs
  have hrun : ∀ (p : Program Op Resp α) (w : W) (tr : List (Event Resp)) (a : α) (w' : W),
      Executes env p w tr a w' →
      ReflTransGen (Step env entry) ((idle w).set i (some p)) (idle w') := by
    intro p w tr a w' h
    induction h with
    | ret a w => exact .single (hstop w _)
    | @call o next w w₁ w₂ r tr a ha _ ih =>
      refine .head ?_ ih
      have hi : ((idle w).set i (some (.call o next)) : Pool ι Op Resp α W).thread i =
          some (.call o next) := by simp [set_thread]
      have hs : Step env entry _ _ := Step.call hi ha
      have hset : ({ ((idle w).set i (some (Program.call o next))).set i (some (next r)) with
          world := w₁ } : Pool ι Op Resp α W) = (idle w₁).set i (some (next r)) := by
        simp only [set, idle]
        congr 1
        funext j
        split <;> rfl
      rwa [hset] at hs
    | drift hd _ ih => exact .head (.drift hd) ih
  exact hc.trans (.head (.start i rfl) (hrun _ _ _ _ _ h))

theorem Reachable.of_restrict {cond : W → (o : Op) → Resp o → W → Prop} {w₀ : W}
    {c : Pool ι Op Resp α W} (hc : Reachable (env.restrict cond) entry w₀ c) :
    Reachable env entry w₀ c := by
  refine ReflTransGen.mono ?_ _ _ hc
  intro c c' hstep
  cases hstep with
  | start i hi => exact .start i hi
  | call hi ha => exact .call hi ha.1
  | stop i => exact .stop i
  | drift hd => exact .drift hd

theorem Reachable.drift {w₀ w w' : W}
    (hc : Reachable env entry w₀ (idle w : Pool ι Op Resp α W)) (hd : env.drift w w') :
    Reachable env entry w₀ (idle w' : Pool ι Op Resp α W) :=
  hc.tail (.drift hd)

theorem Reachable.drifts {w₀ w w' : W}
    (hc : Reachable env entry w₀ (idle w : Pool ι Op Resp α W)) (hd : ReflTransGen env.drift w w') :
    Reachable env entry w₀ (idle w' : Pool ι Op Resp α W) := by
  induction hd with
  | refl => exact hc
  | tail _ hstep ih => exact ih.drift hstep

/-- The next step of a thread: it starts, makes its next call, or stops when it has returned. -/
def turn (f : W → (o : Op) → Resp o × W) (entry : ι → Program Op Resp α) (c : Pool ι Op Resp α W)
    (i : ι) : Pool ι Op Resp α W :=
  match c.thread i with
  | none => c.set i (some (entry i))
  | some (.ret _) => c.set i none
  | some (.call o next) => { c.set i (some (next (f c.world o).1)) with world := (f c.world o).2 }

/-- Threads that take turns. -/
theorem Reachable.turns {f : W → (o : Op) → Resp o × W}
    (hf : ∀ w o, env.answer w o (f w o).1 (f w o).2) (turns : List ι) {w₀ : W}
    {c : Pool ι Op Resp α W} (hc : Reachable env entry w₀ c) :
    Reachable env entry w₀ (turns.foldl (turn f entry) c) := by
  induction turns generalizing c with
  | nil => exact hc
  | cons i turns ih =>
    apply ih
    refine hc.tail ?_
    unfold turn
    split
    · next hi => exact .start i hi
    · exact .stop i
    · next hi => exact .call hi (hf _ _)

/-- Complete runs of one thread, one after the other, each with its own answers. -/
def plays (fs : List (W → (o : Op) → Resp o × W)) (p : Program Op Resp α) (w : W) : W :=
  fs.foldl (fun w f => (play f p w).2.2) w

theorem Reachable.plays {fs : List (W → (o : Op) → Resp o × W)}
    (hf : ∀ f ∈ fs, ∀ w o, env.answer w o (f w o).1 (f w o).2) (i : ι) {w₀ w : W}
    (hc : Reachable env entry w₀ (idle w : Pool ι Op Resp α W)) :
    Reachable env entry w₀ (idle (plays fs (entry i) w) : Pool ι Op Resp α W) := by
  induction fs generalizing w with
  | nil => exact hc
  | cons f fs ih =>
    apply ih
    · intro g hg
      exact hf g (List.mem_cons_of_mem f hg)
    · exact hc.execute (Executes.of_play (hf f List.mem_cons_self) (entry i) w)

end Pool

end Interaction
