import MadSqlite.Transactions

/-! # Transactions with points to return to

A transaction is a stack of frames, each with the content that was seen when it was opened. A
frame with a name is a savepoint; the outermost frame is one or has no name. What it keeps is
what lasts, whatever is done in the frames over it. -/
namespace NestedTransactions

open Runs

variable {κ σ : Type*} [DecidableEq κ]

structure Frame (κ σ : Type*) where
  name : Option κ
  content : σ

/-- What is seen, and the open frames, innermost first. -/
structure State (κ σ : Type*) where
  current : σ
  frames : List (Frame κ σ)

def State.durable (s : State κ σ) : σ :=
  match s.frames.getLast? with
  | none => s.current
  | some f => f.content

inductive Event (κ σ : Type*) where
  | begin
  | commit
  | rollback
  | savepoint (name : κ)
  | release (name : κ)
  | rollbackTo (name : κ)
  | change (work : σ → σ)

/-- The innermost frame of that name, and the frames under it. -/
def find (name : κ) (frames : List (Frame κ σ)) : List (Frame κ σ) :=
  frames.dropWhile fun f => f.name ≠ some name

/-- The state after an event, unless the event is refused. -/
def attempt (s : State κ σ) : Event κ σ → Option (State κ σ)
  | .begin => if s.frames = [] then some ⟨s.current, [⟨none, s.current⟩]⟩ else none
  | .commit => if s.frames = [] then none else some ⟨s.current, []⟩
  | .rollback => if s.frames = [] then none else some ⟨s.durable, []⟩
  | .savepoint name => some ⟨s.current, ⟨some name, s.current⟩ :: s.frames⟩
  | .release name =>
    match find name s.frames with
    | [] => none
    | _ :: below => some ⟨s.current, below⟩
  | .rollbackTo name =>
    match find name s.frames with
    | [] => none
    | f :: below => some ⟨f.content, f :: below⟩
  | .change work => some ⟨work s.current, s.frames⟩

def next (s : State κ σ) (e : Event κ σ) : State κ σ := (attempt s e).getD s

/-- A script stops at the first event that is refused, and after one that does not let it go
on. These are the events up to there. -/
def accepted : State κ σ → List (Event κ σ × Bool) → List (Event κ σ)
  | _, [] => []
  | s, (e, goesOn) :: steps =>
    match attempt s e with
    | none => []
    | some s' => e :: if goesOn then accepted s' steps else []

/-- The name of the frame that an event opens. -/
def Event.opens : Event κ σ → Option (Option κ)
  | .begin => some none
  | .savepoint name => some (some name)
  | _ => none

/-- The same without the frames. -/
def State.flat (s : State κ σ) : Transactions.State σ :=
  ⟨s.durable, if s.frames = [] then none else some s.current⟩

omit [DecidableEq κ] in
/-- Frames over other ones leave what lasts alone. -/
theorem durable_suffix {s t : State κ σ} (h : t.frames <:+ s.frames) (hn : t.frames ≠ []) :
    t.durable = s.durable := by
  obtain ⟨upper, ho⟩ := h
  unfold State.durable
  rw [← ho, List.getLast?_append_of_ne_nil _ hn]
  obtain ⟨f, hf⟩ := Option.isSome_iff_exists.mp (List.getLast?_isSome.mpr hn)
  rw [hf]

omit [DecidableEq κ] in
theorem durable_push (s : State κ σ) (name : Option κ) :
    State.durable ⟨s.current, ⟨name, s.current⟩ :: s.frames⟩ = s.durable := by
  obtain ⟨current, _ | ⟨f, below⟩⟩ := s
  · rfl
  · simp only [State.durable, List.getLast?_cons_cons]

omit [DecidableEq κ] in
theorem flat_change (s : State κ σ) (work : σ → σ) :
    State.flat ⟨work s.current, s.frames⟩ = Transactions.next s.flat (.change work) := by
  obtain ⟨current, _ | ⟨f, below⟩⟩ := s
  · rfl
  · rfl

omit [DecidableEq κ] in
@[simp] theorem flat_view (s : State κ σ) : s.flat.view = s.current := by
  obtain ⟨current, _ | ⟨f, below⟩⟩ := s <;> rfl

theorem find_suffix (name : κ) (frames : List (Frame κ σ)) : find name frames <:+ frames :=
  List.dropWhile_suffix _

theorem run_accepted (s : State κ σ) (e : Event κ σ) (goesOn : Bool)
    (steps : List (Event κ σ × Bool)) : run next s (accepted s ((e, goesOn) :: steps)) =
      if (attempt s e).isSome ∧ goesOn = true then
        run next (next s e) (accepted (next s e) steps)
      else next s e := by
  have hn : next s e = (attempt s e).getD s := rfl
  cases ha : attempt s e with
  | none => simp [accepted, hn, ha]
  | some s' => cases goesOn <;> simp [accepted, hn, ha]

theorem run_accepted_one (s : State κ σ) (step : Event κ σ × Bool) :
    run next s (accepted s [step]) = next s step.1 := by
  rw [run_accepted]
  split <;> rfl

/-- What is accepted opens a frame over the others, or leaves some of them. -/
theorem attempt_frames {s s' : State κ σ} {e : Event κ σ} (h : attempt s e = some s') :
    (∃ name, e.opens = some name ∧ s' = ⟨s.current, ⟨name, s.current⟩ :: s.frames⟩) ∨
      s'.frames <:+ s.frames := by
  cases e with
  | begin =>
    rw [attempt, Option.ite_none_right_eq_some] at h
    obtain ⟨hn, ⟨⟩⟩ := h
    exact .inl ⟨none, rfl, by rw [hn]⟩
  | commit =>
    rw [attempt, Option.ite_none_left_eq_some] at h
    obtain ⟨-, ⟨⟩⟩ := h
    exact .inr (List.nil_suffix)
  | rollback =>
    rw [attempt, Option.ite_none_left_eq_some] at h
    obtain ⟨-, ⟨⟩⟩ := h
    exact .inr (List.nil_suffix)
  | savepoint name =>
    cases h
    exact .inl ⟨some name, rfl, rfl⟩
  | release name =>
    have hs := find_suffix name s.frames
    rw [attempt] at h
    split at h
    · cases h
    · next f below hf =>
      cases h
      rw [hf] at hs
      exact .inr ((List.suffix_cons f below).trans hs)
  | rollbackTo name =>
    have hs := find_suffix name s.frames
    rw [attempt] at h
    split at h
    · cases h
    · next f below hf =>
      cases h
      rw [hf] at hs
      exact .inr hs
  | change work =>
    cases h
    exact .inr (List.suffix_refl _)

/-- The event opened the frame in this run, over the frames under it, and the frame has been
open since then. -/
structure OpenedBy (content : σ) (es : List (Event κ σ)) (f : Frame κ σ)
    (below : List (Frame κ σ)) (pre : List (Event κ σ)) (e : Event κ σ) (post : List (Event κ σ)) :
    Prop where
  run : es = pre ++ e :: post
  opens : e.opens = some f.name
  seen : Runs.run next ⟨content, []⟩ pre = ⟨f.content, below⟩
  since : ∀ mid, mid <+: post →
    f :: below <:+ (Runs.run next ⟨content, []⟩ (pre ++ e :: mid)).frames

/-- A frame that is open keeps what was seen when it was opened. -/
theorem frame_opened {content : σ} {es : List (Event κ σ)} {f : Frame κ σ}
    {below : List (Frame κ σ)} (h : f :: below <:+ (run next ⟨content, []⟩ es).frames) :
    ∃ pre e post, OpenedBy content es f below pre e post := by
  induction es using List.reverseRecOn with
  | nil => simp at h
  | append_singleton es e ih =>
    have hrun : run next ⟨content, []⟩ (es ++ [e]) = next (run next ⟨content, []⟩ es) e := by
      rw [run_append]
      rfl
    -- The frame was open before the last event, which has left it.
    have earlier (ho : f :: below <:+ (run next ⟨content, []⟩ es).frames) :
        ∃ pre d post, OpenedBy content (es ++ [e]) f below pre d post := by
      obtain ⟨pre, d, post, hes, hd, hseen, hsince⟩ := ih ho
      refine ⟨pre, d, post ++ [e], by simp [hes], hd, hseen, fun mid hm => ?_⟩
      rcases List.prefix_concat_iff.mp hm with rfl | hm
      · rwa [hes, List.append_assoc, List.cons_append] at h
      · exact hsince mid hm
    cases ha : attempt (run next ⟨content, []⟩ es) e with
    | none =>
      rw [hrun, next, ha] at h
      exact earlier h
    | some s' =>
      rw [hrun, next, ha, Option.getD_some] at h
      rcases attempt_frames ha with ⟨name, ho, rfl⟩ | hs
      · rcases List.suffix_cons_iff.mp h with hf | hf
        · obtain ⟨rfl, rfl⟩ := List.cons.inj hf
          refine ⟨es, e, [], rfl, ho, rfl, fun mid hm => ?_⟩
          rw [List.prefix_nil.mp hm, hrun, next, ha]
          exact List.suffix_refl _
        · exact earlier hf
      · exact earlier (h.trans hs)

/-- What lasts was seen when no frame was open, and a frame has been open ever since. -/
theorem durable_seen (content : σ) (es : List (Event κ σ)) : ∃ pre post, es = pre ++ post ∧
    run next ⟨content, []⟩ pre = ⟨(run next ⟨content, []⟩ es).durable, []⟩ ∧
      ∀ mid, mid <+: post → mid ≠ [] → (run next ⟨content, []⟩ (pre ++ mid)).frames ≠ [] := by
  by_cases hn : (run next ⟨content, []⟩ es).frames = []
  · refine ⟨es, [], by simp, ?_, fun mid hm hne => absurd (List.prefix_nil.mp hm) hne⟩
    generalize run next ⟨content, []⟩ es = s at hn
    obtain ⟨current, frames⟩ := s
    obtain rfl : frames = [] := hn
    rfl
  · obtain ⟨upper, f, hf⟩ := (List.eq_nil_or_concat' _).resolve_left hn
    have houter : [f] <:+ (run next ⟨content, []⟩ es).frames := ⟨upper, hf.symm⟩
    obtain ⟨pre, e, post, hes, -, hseen, hsince⟩ := frame_opened houter
    refine ⟨pre, e :: post, hes, ?_, ?_⟩
    · rw [hseen, State.durable, hf, List.getLast?_concat]
    · intro mid hm hne hnil
      obtain ⟨d, rest, rfl⟩ := List.exists_cons_of_ne_nil hne
      obtain ⟨rfl, hrest⟩ := List.cons_prefix_cons.mp hm
      have hs := hsince rest hrest
      rw [hnil, List.suffix_nil] at hs
      cases hs

end NestedTransactions
