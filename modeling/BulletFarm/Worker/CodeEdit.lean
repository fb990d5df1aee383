import BulletFarm.Worker.SkillTools

/-!
# What an edit leaves of a file

An edit that writes replaces the first occurrence in the text as it was read; it keeps
the rest of the file exactly if that is the text of the file. A blank pattern asks for a
new file and keeps nothing.
-/

namespace BulletFarm.Worker

open Interaction Python Text

set_option autoImplicit false

/-! ## The first occurrence -/

/-- `u` and `v` stand before and after the first occurrence of `old` in `t`. -/
def FirstIn (old t u v : List Char) : Prop := t = u ++ (old ++ v) ∧ Clear old u (old ++ v)

section First
variable {old new s t u v : List Char}

theorem breakOn_firstIn (h : old <:+: t) :
    FirstIn old t (breakOn old t).1 ((breakOn old t).2.drop old.length) := by
  have hbegins : old <+: (breakOn old t).2 := by
    by_cases hold : old = []
    · rw [hold]
      exact List.nil_prefix
    · have hfound := (not_congr (breakOn_eq_nil_iff hold)).mpr (not_not.mpr h)
      exact (breakOn_halts old t).resolve_left hfound
  have hrest : old ++ (breakOn old t).2.drop old.length = (breakOn old t).2 := by
    obtain ⟨v, hv⟩ := hbegins
    rw [← hv, List.drop_left]
  constructor
  · rw [hrest, breakOn_append]
  · rw [hrest]
    exact breakOn_clear old t

/-- The text as it was read is the text of the file if what was written keeps the rest of it. -/
theorem keeps_iff (h : FirstIn old (universalNewlines t) u v) :
    (∃ u' v', FirstIn old t u' v' ∧ u ++ (new ++ v) = u' ++ (new ++ v')) ↔ '\r' ∉ t := by
  constructor
  · rintro ⟨u', v', hfirst, hsame⟩ hreturn
    have hclean := not_mem_universalNewlines t
    rw [h.1] at hclean
    have hcount := congrArg (List.count '\r') hsame
    have hpos : 0 < t.count '\r' := List.count_pos_iff.mpr hreturn
    have hnone := List.count_eq_zero.mpr hclean
    rw [hfirst.1] at hpos
    simp only [List.count_append] at hcount hpos hnone
    omega
  · intro hclean
    rw [universalNewlines_of_not_mem hclean] at h
    exact ⟨u, v, h, rfl⟩

end First

/-! ## What is kept -/

/-- An error is told. -/
def Told (r : Except Exc String) : Prop := ∃ message, r = .ok message ∧ "Error".toList <+: message.toList

/-- The first occurrence of `old` in `t` has been replaced and nothing else. -/
def Replaced (old new t text : String) : Prop :=
  ∃ u v, FirstIn old.toList t.toList u v ∧ text = String.ofList (u ++ (new.toList ++ v))

def Edits (old new t : String) (r : Except Exc String) (after : Option String) : Prop :=
  (Told r ∧ after = some t) ∨ ∃ text, after = some text ∧ Replaced old new t text

/-- A write that succeeds has a pattern and goes to a file without carriage returns, or puts
its text in the place of a blank pattern that is all of the file; a write that fails
leaves the old text or all of the new one. -/
def Harmless (old new t : String) : Event FileOp.Resp → Prop
  | ⟨.write _ _, .ok ()⟩ => if isBlank old then t = old else '\r' ∉ t.toList
  | ⟨.write _ _, .error (.torn _ left)⟩ => left = t ∨ Replaced old new t left
  | _ => True

/-- How an edit may end: without having written, or with a text that has been written. -/
inductive EditEnds (old new t : String) :
    List (Event FileOp.Resp) → Except Exc String → Option String → Prop where
  | refused {tr : List (Event FileOp.Resp)} {r : Except Exc String} :
      (∀ e ∈ tr, Harmless old new t e) → Told r → EditEnds old new t tr r (some t)
  | torn {tr : List (Event FileOp.Resp)} {path text left : String} {r : Except Exc String} {exc : Exc} :
      (∀ e ∈ tr, Harmless old new t e) → Told r → EditEnds old new t
        (tr ++ [⟨.write path text, .error (.torn exc left)⟩]) r (some left)
  | wrote {tr : List (Event FileOp.Resp)} {path text : String} {r : Except Exc String} :
      (∀ e ∈ tr, Harmless old new t e) → ¬ Told r →
      (if isBlank old then text = new else ∃ u v,
        FirstIn old.toList (universalNewlines t.toList) u v ∧
          text = String.ofList (u ++ (new.toList ++ v))) →
      EditEnds old new t (tr ++ [⟨.write path text, .ok ()⟩]) r (some text)

section Edit
variable {path old new t : String} {w w' : Files} {tr : List (Event FileOp.Resp)}
  {r : Except Exc String} {s s' : Unit}

theorem replaced_all : Replaced old new t new ↔ t = old := by
  constructor
  · rintro ⟨u, v, hfirst, hnew⟩
    have hlength := congrArg (fun x => x.toList.length) hnew
    simp only [String.toList_ofList, List.length_append] at hlength
    have hu : u = [] := List.eq_nil_of_length_eq_zero (by omega)
    have hv : v = [] := List.eq_nil_of_length_eq_zero (by omega)
    have htext := hfirst.1
    rw [hu, hv, List.nil_append, List.append_nil] at htext
    exact String.toList_inj.mp htext
  · rintro rfl
    exact ⟨[], [], ⟨by simp, trivial⟩, by simp⟩

theorem replaced_first {u v : List Char} (h : FirstIn old.toList (universalNewlines t.toList) u v) :
    Replaced old new t (String.ofList (u ++ (new.toList ++ v))) ↔ '\r' ∉ t.toList := by
  rw [← keeps_iff h]
  constructor
  · rintro ⟨u', v', hfirst, hnew⟩
    exact ⟨u', v', hfirst, ofList_injective hnew⟩
  · rintro ⟨u', v', hfirst, hnew⟩
    exact ⟨u', v', hfirst, congrArg String.ofList hnew⟩

theorem EditEnds.edits_iff {after : Option String} (h : EditEnds old new t tr r after) :
    Edits old new t r after ↔ ∀ e ∈ tr, Harmless old new t e := by
  cases h with
  | refused htr htold => exact iff_of_true (Or.inl ⟨htold, rfl⟩) htr
  | @torn tr path text left r exc htr htold =>
    have hall : (∀ e ∈ tr ++ [⟨.write path text, .error (.torn exc left)⟩], Harmless old new t e) ↔
        left = t ∨ Replaced old new t left := by
      rw [List.forall_mem_append, List.forall_mem_singleton, and_iff_right htr]
      exact Iff.rfl
    rw [hall]
    simp [Edits, htold]
  | @wrote tr path text r htr htold htext =>
    have hall : (∀ e ∈ tr ++ [⟨.write path text, .ok ()⟩], Harmless old new t e) ↔
        if isBlank old then t = old else '\r' ∉ t.toList := by
      rw [List.forall_mem_append, List.forall_mem_singleton, and_iff_right htr]
      exact Iff.rfl
    have hedits : Edits old new t r (some text) ↔ Replaced old new t text := by
      simp [Edits, htold]
    rw [hall, hedits]
    split at htext
    · next hblank =>
      rw [if_pos hblank, htext]
      exact replaced_all
    · next hblank =>
      obtain ⟨u, v, hfirst, rfl⟩ := htext
      rw [if_neg hblank]
      exact replaced_first hfirst

/-- A text is written as the last call of a block. -/
theorem EditEnds.of_writes {tr₀ : List (Event FileOp.Resp)} {text done : String}
    (htr₀ : ∀ e ∈ tr₀, Harmless old new t e) (hw : w path = some t)
    (hdone : ¬ "Error".toList <+: done.toList)
    (htext : if isBlank old then text = new else ∃ u v,
      FirstIn old.toList (universalNewlines t.toList) u v ∧
        text = String.ofList (u ++ (new.toList ++ v)))
    (h : (writeText path text >>= fun _ => pure done).Ends s tr r s')
    (hthreads : Threads Files.Serves w tr w') :
    (∃ message, r = .ok message) ∧ EditEnds old new t (tr₀ ++ tr) r (w' path) ∨
      ∃ exc, r = .error exc ∧ ∀ r', Told r' → EditEnds old new t (tr₀ ++ tr) r' (w' path) := by
  rcases Effect.ends_bind h with ⟨tr₁, tr₂, _, s₁, rfl, h₁, h₂⟩ | ⟨exc, rfl, h₁⟩
  · obtain ⟨rfl, rfl, _⟩ := Effect.ends_pure h₂
    rw [List.append_nil] at hthreads ⊢
    have hwrites := writeText_writes h₁ hthreads
    have hnot : ¬ Told (.ok done) := by
      rintro ⟨message, hmessage, herror⟩
      cases hmessage
      exact hdone herror
    generalize w' path = after at hwrites
    cases hwrites
    exact Or.inl ⟨⟨done, rfl⟩, .wrote htr₀ hnot htext⟩
  · have hwrites := writeText_writes h₁ hthreads
    rw [hw] at hwrites
    generalize w' path = after at hwrites
    refine Or.inr ⟨exc, rfl, fun r' htold => ?_⟩
    cases hwrites with
    | unopened =>
      refine .refused ?_ htold
      intro e he
      rcases List.mem_append.mp he with he | he
      · exact htr₀ e he
      · cases List.mem_singleton.mp he
        trivial
    | torn _ left => exact .torn htr₀ htold

theorem told_error (path : String) (e : Exc) :
    Told (.ok ("Error editing " ++ path ++ ": " ++ e.text)) := by
  refine ⟨_, rfl, ?_⟩
  simp only [String.toList_append, List.append_assoc]
  exact ⟨_, rfl⟩

theorem create_ends (hblank : isBlank old = true) (hw : w path = some t)
    (h : Effect.Ends (makedirs (dirname path) >>= fun _ => writeText path new >>= fun _ =>
      pure ("Successfully created " ++ path)) s tr r s')
    (hthreads : Threads Files.Serves w tr w') :
    (∃ message, r = .ok message) ∧ EditEnds old new t tr r (w' path) ∨
      ∃ exc, r = .error exc ∧ ∀ r', Told r' → EditEnds old new t tr r' (w' path) := by
  have hapart : ∀ x, Harmless old new t ⟨.makedirs (dirname path), x⟩ := fun _ => trivial
  rcases Effect.ends_bind h with ⟨tr₁, tr₂, _, s₁, rfl, h₁, h₂⟩ | ⟨exc, rfl, h₁⟩
  · obtain ⟨w₁, hw₁, hw₂⟩ := hthreads.of_append
    obtain ⟨x, rfl, _, _⟩ := Effect.ends_attempt h₁
    obtain ⟨w₂, hserves, hnil⟩ := hw₁.of_cons
    obtain rfl := hnil.of_nil
    obtain rfl : w₁ = w := hserves
    have hcreated : ¬ "Error".toList <+: ("Successfully created " ++ path).toList := by
      rw [String.toList_append]
      rintro ⟨x, hx⟩
      cases List.head_eq_of_cons_eq hx
    refine EditEnds.of_writes ?_ hw hcreated ?_ h₂ hw₂
    · intro e he
      cases List.mem_singleton.mp he
      exact hapart x
    · rw [if_pos hblank]
  · obtain ⟨x, rfl, _, _⟩ := Effect.ends_attempt h₁
    obtain ⟨w₁, hserves, hnil⟩ := hthreads.of_cons
    obtain rfl := hnil.of_nil
    obtain rfl : w' = w := hserves
    rw [hw]
    refine Or.inr ⟨exc, rfl, fun r' htold => .refused ?_ htold⟩
    intro e he
    cases List.mem_singleton.mp he
    exact hapart x

theorem replace_ends (hblank : isBlank old = false) (hw : w path = some t)
    (h : Effect.Ends (readFile path >>= fun content =>
      if !contains content old then
        pure ("Error: old_content not found in " ++ path ++ ". File contains " ++
          toString content.length ++ " chars. First 200: " ++ take 200 content)
      else writeText path (replaceFirst old new content) >>= fun _ =>
        pure ("Successfully edited " ++ path)) s tr r s')
    (hthreads : Threads Files.Serves w tr w') :
    (∃ message, r = .ok message) ∧ EditEnds old new t tr r (w' path) ∨
      ∃ exc, r = .error exc ∧ ∀ r', Told r' → EditEnds old new t tr r' (w' path) := by
  have hapart : ∀ x, Harmless old new t ⟨.read path, x⟩ := fun _ => trivial
  have hread : ∀ x, ∀ e ∈ [(⟨.read path, x⟩ : Event FileOp.Resp)], Harmless old new t e := by
    intro x e he
    cases List.mem_singleton.mp he
    exact hapart x
  rcases Effect.ends_bind h with ⟨tr₁, tr₂, content, s₁, rfl, h₁, h₂⟩ | ⟨exc, rfl, h₁⟩
  · obtain ⟨w₁, hw₁, hw₂⟩ := hthreads.of_append
    obtain ⟨rfl, x, rfl, hx⟩ := readFile_reads h₁ hw₁
    obtain ⟨t', ht', hcontent⟩ := hx content rfl
    obtain rfl : t = t' := Option.some.inj (hw.symm.trans ht')
    split at h₂
    · obtain ⟨rfl, rfl, _⟩ := Effect.ends_pure h₂
      obtain rfl := hw₂.of_nil
      rw [List.append_nil, hw]
      refine Or.inl ⟨⟨_, rfl⟩, .refused (hread x) ⟨_, rfl, ?_⟩⟩
      simp only [String.toList_append, List.append_assoc]
      exact ⟨_, rfl⟩
    · next hfound =>
      have hcontains : contains content old = true := by simpa using hfound
      have hinfix : old.toList <:+: universalNewlines t.toList := by
        have hin := of_decide_eq_true hcontains
        rwa [hcontent, String.toList_ofList] at hin
      have hedited : ¬ "Error".toList <+: ("Successfully edited " ++ path).toList := by
        rw [String.toList_append]
        rintro ⟨x, hx⟩
        cases List.head_eq_of_cons_eq hx
      refine EditEnds.of_writes (hread x) hw hedited ?_ h₂ hw₂
      rw [if_neg (by simp [hblank])]
      refine ⟨_, _, breakOn_firstIn hinfix, ?_⟩
      unfold replaceFirst
      rw [if_pos hcontains, hcontent, String.toList_ofList, String.length_toList]
  · obtain ⟨rfl, x, rfl, _⟩ := readFile_reads h₁ hthreads
    rw [hw]
    exact Or.inr ⟨exc, rfl, fun r' htold => .refused (hread x) htold⟩

theorem tryEdit_ends (hw : w path = some t) (h : (tryEdit path old new).Ends s tr r s')
    (hthreads : Threads Files.Serves w tr w') :
    (∃ message, r = .ok message) ∧ EditEnds old new t tr r (w' path) ∨
      ∃ exc, r = .error exc ∧ ∀ r', Told r' → EditEnds old new t tr r' (w' path) := by
  unfold tryEdit at h
  cases hblank : isBlank old with
  | true =>
    rw [hblank] at h
    exact create_ends hblank hw h hthreads
  | false =>
    rw [hblank] at h
    exact replace_ends hblank hw h hthreads

theorem codeEdit_ends (hw : w path = some t) (h : (codeEdit path old new).Ends s tr r s')
    (hthreads : Threads Files.Serves w tr w') : EditEnds old new t tr r (w' path) := by
  rcases Effect.ends_tryCatch h with ⟨message, rfl, h₁⟩ | ⟨tr₁, tr₂, exc, s₁, rfl, h₁, h₂⟩
  · rcases tryEdit_ends hw h₁ hthreads with ⟨_, hends⟩ | ⟨exc, hexc, _⟩
    · exact hends
    · cases hexc
  · obtain ⟨rfl, rfl, _⟩ := Effect.ends_pure h₂
    rw [List.append_nil] at hthreads ⊢
    rcases tryEdit_ends hw h₁ hthreads with ⟨⟨_, hmessage⟩, _⟩ | ⟨_, _, hends⟩
    · cases hmessage
    · exact hends _ (told_error path exc)

/-- For every run of an edit on a file: an error is told and the file is as it was, or the
first occurrence has been replaced and nothing else, exactly if every write is harmless. -/
theorem codeEdit_edits_iff (hw : w path = some t) (h : (codeEdit path old new).Ends s tr r s')
    (hthreads : Threads Files.Serves w tr w') :
    Edits old new t r (w' path) ↔ ∀ e ∈ tr, Harmless old new t e :=
  (codeEdit_ends hw h hthreads).edits_iff

end Edit

/-! ## Edits of a file -/

def demoFiles (t : String) : Files := fun path => if path = "/workspace/a.txt" then some t else none

/-- An edit on a file system that works. -/
def editRun (old new t : String) :
    List (Event FileOp.Resp) × (Except Exc String × Unit) × Files :=
  play Files.respond ((codeEdit "/workspace/a.txt" old new).start ()) (demoFiles t)

theorem editRun_serves (old new t : String) :
    Threads Files.Serves (demoFiles t) (editRun old new t).1 (editRun old new t).2.2 :=
  threads_play Files.respond Files.serves_respond _ _

theorem codeEdit_edits_iff_demo : Edits "b" "c" "a\nb\nb" (editRun "b" "c" "a\nb\nb").2.1.1
      ((editRun "b" "c" "a\nb\nb").2.2 "/workspace/a.txt") ↔
    ∀ e ∈ (editRun "b" "c" "a\nb\nb").1, Harmless "b" "c" "a\nb\nb" e :=
  codeEdit_edits_iff (by rfl) (runs_play _ _ _) (editRun_serves "b" "c" "a\nb\nb")

/-- A pattern of blanks puts the new text in the place of the whole file, and an edit of a
file with carriage returns takes them away. -/
theorem edits_lose :
    (∃ tr r s' w₁, (codeEdit "/workspace/a.txt" "\n" "c").Ends () tr r s' ∧
      Threads Files.Serves (demoFiles "a\nb") tr w₁ ∧ ¬ Edits "\n" "c" "a\nb" r (w₁ "/workspace/a.txt")) ∧
    ∃ tr r s' w₁, (codeEdit "/workspace/a.txt" "a" "c").Ends () tr r s' ∧
      Threads Files.Serves (demoFiles "a\r\nb") tr w₁ ∧
        ¬ Edits "a" "c" "a\r\nb" r (w₁ "/workspace/a.txt") := by
  refine ⟨⟨_, _, _, _, runs_play _ _ _, editRun_serves "\n" "c" "a\nb", ?_⟩,
    ⟨_, _, _, _, runs_play _ _ _, editRun_serves "a" "c" "a\r\nb", ?_⟩⟩
  · have hdone : (editRun "\n" "c" "a\nb").2.1.1 = .ok "Successfully created /workspace/a.txt" := by
      decide +kernel
    have hafter : (editRun "\n" "c" "a\nb").2.2 "/workspace/a.txt" = some "c" := by decide +kernel
    change ¬ Edits "\n" "c" "a\nb" (editRun "\n" "c" "a\nb").2.1.1 _
    rw [hafter, hdone]
    rintro (⟨⟨message, hmessage, herror⟩, _⟩ | ⟨text, htext, hreplaced⟩)
    · cases hmessage
      exact absurd herror (by decide)
    · cases htext
      exact absurd (replaced_all.mp hreplaced) (by decide)
  · have hdone : (editRun "a" "c" "a\r\nb").2.1.1 = .ok "Successfully edited /workspace/a.txt" := by
      decide +kernel
    have hafter : (editRun "a" "c" "a\r\nb").2.2 "/workspace/a.txt" = some "c\nb" := by decide +kernel
    change ¬ Edits "a" "c" "a\r\nb" (editRun "a" "c" "a\r\nb").2.1.1 _
    rw [hafter, hdone]
    rintro (⟨⟨message, hmessage, herror⟩, _⟩ | ⟨text, htext, hreplaced⟩)
    · cases hmessage
      exact absurd herror (by decide)
    · cases htext
      have hfirst : FirstIn "a".toList (universalNewlines "a\r\nb".toList) [] "\nb".toList := ⟨rfl, trivial⟩
      exact ((@replaced_first "a" "c" "a\r\nb" _ _ hfirst).mp hreplaced) (by decide)

end BulletFarm.Worker
