import MadSqlite.HandleCalls
import MadSqlite.SharedTransaction

/-! # Two clients of one handle

Everybody who opens a path gets the same handle, and with it the same transaction: a
`beginTransaction` joins the one that is open, and the next commit or rollback ends it for
everybody. What the file then holds is what the abstract machine says. -/
namespace SharedHandle

open CppStrings ContentValues SqliteCommands TransactionalStore
open SqliteConnection SqliteConnection.Connection SqliteExec MadDatabase HandleCalls Runs
open SharedTransaction (Event rows)

variable {α : Type*} (p : Platform) (g : Grammar)

def StoresRow (r : Ran (List α)) (x : α) : Prop :=
  r.error = none ∧ r.Commits ∧ r.endsTransaction true = false ∧ r.work = (· ++ [x])

/-- A call whose statements SQLite executes: it refuses no BEGIN, COMMIT, ROLLBACK and no
lock, and an insert stores its row or fails and leaves content and transaction alone. -/
inductive Carries : Call (List α) → Event α → Prop where
  | begin {env} : (firstRan env).isSome → Carries (.begin env) .begin
  | commit {env r} : firstRan env = some r → r.commit = none → Carries (.commit env) .commit
  | rollback {env} : (firstRan env).isSome → Carries (.rollback env) .rollback
  | stored {c r x} : insertRan c = some r → StoresRow r x → Carries (.insert c) (.insert (some x))
  | failed {c r} : insertRan c = some r → ¬r.KeepsWork → r.endsTransaction true = false →
      Carries (.insert c) (.insert none)
  | notRan {c} : insertRan c = none → ¬LockRefused c →
      ¬(Prepared c ∧ ¬BindsSucceed c.values.impl c.env) → Carries (.insert c) (.insert none)

def SameKind (event : Event α) : Call (List α) → Prop
  | .begin _ => event = .begin
  | .commit _ => event = .commit
  | .rollback _ => event = .rollback
  | .insert _ => ∃ row, event = .insert row

theorem Carries.sameKind {call : Call (List α)} {event : Event α} (hc : Carries call event) :
    SameKind event call := by
  cases hc <;> simp [SameKind]

structure Simulates (h : Impl (List α)) (s : SharedTransaction.State α) : Prop where
  flag : h.isInTransaction = s.pending.isSome
  autoCommit : h.db.autoCommit = s.pending.isNone
  file : h.db.store.file = s.committed
  view : h.db.store.view = s.committed ++ s.pending.getD []
  otherWriters : h.db.otherWriters = 0
  noDeferred : h.db.nDeferredCons = 0

theorem simulates_begin {h : Impl (List α)} {s : SharedTransaction.State α}
    (hs : Simulates h s) {env : ExecEnv (List α)} (he : (firstRan env).isSome) :
    Simulates (beginTransaction g h env) (SharedTransaction.next s .begin) := by
  obtain ⟨hf, ha, hfile, hview, ho, hd⟩ := hs
  rcases s with ⟨stored, _ | waiting⟩
  · obtain ⟨m, hb⟩ := beginTransaction_issued g (by simpa using hf) env
    have ht : BeginTakesEffect h.db env := ⟨he, by simpa using ha, hd⟩
    rw [hb, if_pos ht]
    exact ⟨rfl, rfl, hfile, hview, ho, hd⟩
  · have hb : beginTransaction g h env = h := by simp [beginTransaction, hf]
    rw [hb]
    exact ⟨hf, ha, hfile, hview, ho, hd⟩

theorem simulates_commit {h : Impl (List α)} {s : SharedTransaction.State α}
    (hs : Simulates h s) {env : ExecEnv (List α)} {r : Ran (List α)}
    (he : firstRan env = some r) (hr : r.commit = none) :
    Simulates (commitTransaction g h env) (SharedTransaction.next s .commit) := by
  obtain ⟨hf, ha, hfile, hview, ho, hd⟩ := hs
  rcases s with ⟨stored, _ | waiting⟩
  · have hb : commitTransaction g h env = h := by simp [commitTransaction, hf]
    rw [hb]
    exact ⟨hf, ha, by simpa [SharedTransaction.next] using hfile,
      by simpa [SharedTransaction.next] using hview, ho, hd⟩
  · obtain ⟨m, hb⟩ := commitTransaction_issued g (by simpa using hf) env
    have hv : vdbeCommit h.db r.commit = none := by simp [vdbeCommit, hr]
    have ht : CommitTakesEffect h.db env := by
      simp only [CommitTakesEffect, he]
      exact ⟨by simpa using ha, ho, hd, by simp [hv]⟩
    have hc : committed h.db env = commitAll h.db := by simp [committed, he, hv]
    rw [hb, if_pos ht, hc]
    exact ⟨rfl, rfl, hview, by simpa [SharedTransaction.next] using hview, ho, rfl⟩

theorem simulates_rollback {h : Impl (List α)} {s : SharedTransaction.State α}
    (hs : Simulates h s) {env : ExecEnv (List α)} (he : (firstRan env).isSome) :
    Simulates (rollbackTransaction g h env) (SharedTransaction.next s .rollback) := by
  obtain ⟨hf, ha, hfile, hview, ho, hd⟩ := hs
  rcases s with ⟨stored, _ | waiting⟩
  · have hb : rollbackTransaction g h env = h := by simp [rollbackTransaction, hf]
    rw [hb]
    exact ⟨hf, ha, hfile, hview, ho, hd⟩
  · obtain ⟨m, hb⟩ := rollbackTransaction_issued g (by simpa using hf) env
    have ht : RollbackTakesEffect h.db env := ⟨he, by simpa using ha⟩
    rw [hb, if_pos ht]
    exact ⟨rfl, rfl, hfile, by simpa [SharedTransaction.next] using hfile, ho, rfl⟩

theorem simulates_stored {h : Impl (List α)} {s : SharedTransaction.State α}
    (hs : Simulates h s) {c : InsertCall (List α)} {r : Ran (List α)} {x : α}
    (hr : insertRan c = some r) (hx : StoresRow r x) : (insertValues p h c).1 = true ∧
      Simulates (insertNext p h c) (SharedTransaction.next s (.insert (some x))) := by
  obtain ⟨hf, ha, hfile, hview, ho, hd⟩ := hs
  obtain ⟨hn, hcom, hends, hw⟩ := hx
  have hother : (insertNext p h c).db.otherWriters = 0 := by
    rw [insertNext_otherWriters, if_neg (lockRefused_not_ran hr), ho]
  have hflag := (insertNext_flag p h c).trans hf
  obtain ⟨a, d, n, m, he, hi⟩ := insert_ran p h hr
  rw [insertNext, hi] at hother hflag ⊢
  rcases s with ⟨stored, _ | waiting⟩
  · have halone : h.db.autoCommit = true ∧ h.db.otherWriters = 0 := ⟨ha, ho⟩
    cases he with
    | committed =>
      refine ⟨by simp [hn], hflag, ha, ?_, ?_, hother, rfl⟩ <;>
        simp [SharedTransaction.next, hw, hview]
    | rolledBack _ _ hk => exact absurd hcom hk
    | ended he => simp [hends] at he
    | kept hk => exact absurd halone hk
    | undone hk => exact absurd halone hk
  · have hinside : h.db.autoCommit ≠ true := by simp [ha]
    cases he with
    | committed hk => exact absurd hk hinside
    | rolledBack hk => exact absurd hk hinside
    | ended he => simp [hends] at he
    | kept =>
      refine ⟨by simp [hn], hflag, ha, hfile, ?_, hother, hcom.2.1⟩
      simp [SharedTransaction.next, hw, hview]
    | undone _ _ hk => exact absurd hcom.1 hk

theorem simulates_failed {h : Impl (List α)} {s : SharedTransaction.State α}
    (hs : Simulates h s) {c : InsertCall (List α)} {r : Ran (List α)}
    (hr : insertRan c = some r) (hk : ¬r.KeepsWork) (hends : r.endsTransaction true = false) :
    (insertValues p h c).1 = false ∧
      Simulates (insertNext p h c) (SharedTransaction.next s (.insert none)) := by
  obtain ⟨hf, ha, hfile, hview, ho, hd⟩ := hs
  have hn : r.error ≠ none := fun hn => hk (.inl hn)
  have hother : (insertNext p h c).db.otherWriters = 0 := by
    rw [insertNext_otherWriters, if_neg (lockRefused_not_ran hr), ho]
  have hflag := (insertNext_flag p h c).trans hf
  obtain ⟨a, d, n, m, he, hi⟩ := insert_ran p h hr
  rw [insertNext, hi] at hother hflag ⊢
  rcases s with ⟨stored, _ | waiting⟩
  · have halone : h.db.autoCommit = true ∧ h.db.otherWriters = 0 := ⟨ha, ho⟩
    cases he with
    | committed _ _ hcom => exact absurd hcom.1 hk
    | rolledBack =>
      refine ⟨rfl, hflag, ha, ?_, ?_, hother, rfl⟩ <;>
        simp [SharedTransaction.next, hfile]
    | ended he => simp [hends] at he
    | kept hk => exact absurd halone hk
    | undone hk => exact absurd halone hk
  · have hinside : h.db.autoCommit ≠ true := by simp [ha]
    cases he with
    | committed hk => exact absurd hk hinside
    | rolledBack hk => exact absurd hk hinside
    | ended he => simp [hends] at he
    | kept _ _ hk' => exact absurd hk' hk
    | undone =>
      refine ⟨by simp [hn], hflag, ha, ?_, ?_, hother, hd⟩
      · simp [SharedTransaction.next, hfile]
      · simp [SharedTransaction.next, hview, withStmt]

theorem simulates_notRan {h : Impl (List α)} {s : SharedTransaction.State α}
    (hs : Simulates h s) {c : InsertCall (List α)} (hr : insertRan c = none)
    (hl : ¬LockRefused c) (hn : ¬(Prepared c ∧ ¬BindsSucceed c.values.impl c.env)) :
    (insertValues p h c).1 = false ∧
      Simulates (insertNext p h c) (SharedTransaction.next s (.insert none)) := by
  obtain ⟨hf, ha, hfile, hview, ho, hd⟩ := hs
  have hother : (insertNext p h c).db.otherWriters = 0 := by
    rw [insertNext_otherWriters, if_neg hl, ho]
  obtain ⟨b, t, m, hi, hb, -⟩ := insert_not_ran p h hr
  have hfalse : b = false := Bool.eq_false_of_not_eq_true fun ht => hn (hb.mp ht)
  rw [insertNext, hi] at hother ⊢
  rcases s with ⟨stored, _ | waiting⟩
  · refine ⟨hfalse, hf, ha, ?_, ?_, hother, hd⟩ <;> simp [SharedTransaction.next, hfile, hview]
  · refine ⟨hfalse, hf, ha, ?_, ?_, hother, hd⟩ <;> simp [SharedTransaction.next, hfile, hview]

theorem simulates_next {h : Impl (List α)} {s : SharedTransaction.State α}
    (hs : Simulates h s) {call : Call (List α)} {event : Event α} (hc : Carries call event) :
    Simulates (next p g h call) (SharedTransaction.next s event) := by
  cases hc with
  | begin he => exact simulates_begin g hs he
  | commit he hr => exact simulates_commit g hs he hr
  | rollback he => exact simulates_rollback g hs he
  | stored hr hx => exact (simulates_stored p hs hr hx).2
  | failed hr hk he => exact (simulates_failed p hs hr hk he).2
  | notRan hr hl hn => exact (simulates_notRan p hs hr hl hn).2

theorem insertValues_returns {h : Impl (List α)} {s : SharedTransaction.State α}
    (hs : Simulates h s) {c : InsertCall (List α)} {event : Event α}
    (hc : Carries (.insert c) event) :
    (insertValues p h c).1 = true ↔ event.rows ≠ [] := by
  cases hc with
  | stored hr hx => simp [(simulates_stored p hs hr hx).1, Event.rows]
  | failed hr hk he => simp [(simulates_failed p hs hr hk he).1, Event.rows]
  | notRan hr hl hn => simp [(simulates_notRan p hs hr hl hn).1, Event.rows]

inductive Client where
  | first | second
  deriving DecidableEq

structure ClientCall (α : Type*) where
  client : Client
  call : Call (List α)
  event : Event α
  carries : Carries call event

def clientNext (h : Impl (List α)) (z : ClientCall α) : Impl (List α) := next p g h z.call

def script (w : Client) (zs : List (ClientCall α)) : List (Call (List α)) :=
  (zs.filter (·.client = w)).map (·.call)

def rowsOf (zs : List (ClientCall α)) : List α := rows (zs.map (·.event))

@[simp] theorem script_nil (w : Client) : script w ([] : List (ClientCall α)) = [] := rfl

theorem script_cons (w : Client) (z : ClientCall α) (zs : List (ClientCall α)) :
    script w (z :: zs) = if z.client = w then z.call :: script w zs else script w zs := by
  by_cases hw : z.client = w <;> simp [script, hw]

@[simp] theorem script_append (w : Client) (zs zs' : List (ClientCall α)) :
    script w (zs ++ zs') = script w zs ++ script w zs' := by
  simp [script]

theorem mem_script {z : ClientCall α} {zs : List (ClientCall α)} (hz : z ∈ zs) :
    z.call ∈ script z.client zs := by
  exact List.mem_map.mpr ⟨z, by simpa using hz, rfl⟩

theorem script_last {w : Client} {zs : List (ClientCall α)} {calls : List (Call (List α))}
    {last : Call (List α)} (h : script w zs = calls ++ [last]) :
    ∃ pre z post, zs = pre ++ z :: post ∧ z.client = w ∧ z.call = last ∧
      script w pre = calls ∧ script w post = [] := by
  obtain ⟨l, l', hl, hcalls, hlast⟩ := List.map_eq_append_iff.mp h
  obtain ⟨a, b, rfl, rfl, rfl⟩ := List.filter_eq_append_iff.mp hl
  obtain ⟨z, l', hb, hz, hl'⟩ := List.map_eq_cons_iff.mp hlast
  obtain ⟨b₁, b₂, rfl, hb₁, hw, hb₂⟩ := List.filter_eq_cons_iff.mp hb
  have hnone : b₁.filter (·.client = w) = [] := List.filter_eq_nil_iff.mpr hb₁
  refine ⟨a ++ b₁, z, b₂, by simp, by simpa using hw, hz, ?_, ?_⟩
  · simpa [script, hnone] using hcalls
  · simpa [script, hb₂] using hl'

def after (content : List α) (zs : List (ClientCall α)) : Impl (List α) :=
  run (clientNext p g) (Impl.opened content) zs

theorem after_simulated (content : List α) (zs : List (ClientCall α)) :
    Simulates (after p g content zs)
      (run SharedTransaction.next ⟨content, none⟩ (zs.map (·.event))) := by
  have hfirst : Simulates (Impl.opened content) (⟨content, none⟩ : SharedTransaction.State α) :=
    ⟨rfl, rfl, rfl, (List.append_nil _).symm, rfl, rfl⟩
  have hall : AllSteps (clientNext p g) (fun _ _ => True) (Impl.opened content) zs :=
    allSteps_iff_split.mpr fun _ _ _ _ => trivial
  exact run_simulates (R := Simulates) (fun _ _ z hs _ => simulates_next p g hs z.carries)
    hfirst hall

def Body (calls : List (Call (List α))) : Prop :=
  ∃ env, ∃ cs : List (InsertCall (List α)), calls = .begin env :: cs.map .insert

theorem Body.begin_or_insert {calls : List (Call (List α))} (hb : Body calls)
    {call : Call (List α)} (hc : call ∈ calls) :
    (∃ env, call = .begin env) ∨ ∃ c, call = .insert c := by
  obtain ⟨env, cs, rfl⟩ := hb
  rcases List.mem_cons.mp hc with rfl | hc
  · exact .inl ⟨env, rfl⟩
  · obtain ⟨c, -, rfl⟩ := List.mem_map.mp hc
    exact .inr ⟨c, rfl⟩

theorem Body.head {call : Call (List α)} {calls calls' : List (Call (List α))}
    (hb : Body (call :: calls ++ calls')) : ∃ env, call = .begin env := by
  obtain ⟨env, cs, h⟩ := hb
  exact ⟨env, (List.cons.inj h).1⟩

theorem Body.tail {call : Call (List α)} {calls : List (Call (List α))}
    (hb : Body (call :: calls)) : ∀ call ∈ calls, ∃ c, call = .insert c := by
  obtain ⟨env, cs, h⟩ := hb
  intro call hc
  rw [(List.cons.inj h).2] at hc
  obtain ⟨c, -, rfl⟩ := List.mem_map.mp hc
  exact ⟨c, rfl⟩

theorem body_not_ends {zs : List (ClientCall α)}
    (h : ∀ w, ∃ calls, Body calls ∧ script w zs ⊆ calls) :
    ∀ e ∈ zs.map (·.event), ¬e.Ends := by
  intro e he
  obtain ⟨z, hz, rfl⟩ := List.mem_map.mp he
  obtain ⟨calls, hb, hsub⟩ := h z.client
  have hk := z.carries.sameKind
  rcases hb.begin_or_insert (hsub (mem_script hz)) with ⟨env, hc⟩ | ⟨c, hc⟩
  · rw [hc] at hk
    simp [show z.event = .begin from hk, Event.Ends]
  · rw [hc] at hk
    obtain ⟨row, hrow⟩ := hk
    simp [hrow, Event.Ends]

theorem body_begins {x : ClientCall α} {zs : List (ClientCall α)} {rest : List (Call (List α))}
    (h : Body (script x.client (x :: zs) ++ rest)) : x.event = .begin := by
  rw [script_cons, if_pos rfl] at h
  obtain ⟨env, hx⟩ := h.head
  have hk := x.carries.sameKind
  rw [hx] at hk
  exact hk

/-- The first client's rollback comes before the second client's commit: the rows that
came before it are gone, those that came after it are stored. -/
def RollbackFirst (content : List α) (r c : ExecEnv (List α)) (zs : List (ClientCall α)) : Prop :=
  ∃ pre y mid z, zs = pre ++ y :: (mid ++ [z]) ∧ y.client = .first ∧ y.call = .rollback r ∧
    z.client = .second ∧ z.call = .commit c ∧
    (after p g content zs).db.store.file = content ++ rowsOf mid

/-- The commit comes first: it stores the rows of both clients, and the first client's
later rows stay when it had begun before. -/
def CommitFirst (content : List α) (r c : ExecEnv (List α)) (zs : List (ClientCall α)) : Prop :=
  ∃ pre z mid y, zs = pre ++ z :: (mid ++ [y]) ∧ z.client = .second ∧ z.call = .commit c ∧
    y.client = .first ∧ y.call = .rollback r ∧
    (after p g content (pre ++ [z])).db.store.file = content ++ rowsOf pre ∧
    (after p g content zs).db.store.file =
      content ++ rowsOf pre ++ if ∃ x ∈ pre, x.client = .first then rowsOf mid else []

section Splits

variable {r c : ExecEnv (List α)} {pre mid : List (ClientCall α)} {y z : ClientCall α}

theorem left_not_ends (hb : ∀ w, Body (script w pre ++ script w mid)) :
    ∀ e ∈ pre.map (·.event), ¬e.Ends :=
  body_not_ends fun w => ⟨_, hb w, fun _ hm => List.mem_append_left _ hm⟩

theorem right_not_ends (hb : ∀ w, Body (script w pre ++ script w mid)) :
    ∀ e ∈ mid.map (·.event), ¬e.Ends :=
  body_not_ends fun w => ⟨_, hb w, fun _ hm => List.mem_append_right _ hm⟩

theorem rollbackFirst_of_split (content : List α) (hy : y.client = .first)
    (hr : y.call = .rollback r) (hz : z.client = .second) (hc : z.call = .commit c)
    (hb : ∀ w, Body (script w pre ++ script w mid)) (hmid : script .first mid = []) :
    RollbackFirst p g content r c (pre ++ y :: (mid ++ [z])) := by
  refine ⟨pre, y, mid, z, rfl, hy, hr, hz, hc, ?_⟩
  have hye : y.event = .rollback := by simpa [hr, SameKind] using y.carries.sameKind
  have hze : z.event = .commit := by simpa [hc, SameKind] using z.carries.sameKind
  have hends := left_not_ends hb
  have hends' := right_not_ends hb
  rw [(after_simulated p g content _).file]
  obtain _ | ⟨x, pre⟩ := pre
  · obtain ⟨env, cs, hcalls⟩ := hb .first
    simp [hmid] at hcalls
  · have hx : x.event = .begin := body_begins (hb x.client)
    rw [List.map_cons, List.forall_mem_cons] at hends
    have hrun : run SharedTransaction.next ⟨content, none⟩
        ((x :: pre ++ y :: (mid ++ [z])).map (·.event)) =
        run SharedTransaction.next (run SharedTransaction.next ⟨content, none⟩
          (.begin :: pre.map (·.event) ++ [.rollback])) (mid.map (·.event) ++ [.commit]) := by
      rw [← run_append]
      simp [hx, hye, hze]
    rw [hrun, SharedTransaction.run_begin_rollback hends.2, SharedTransaction.run_commit hends']
    rfl

theorem client_of_script {zs : List (ClientCall α)} (h : script .second zs = []) :
    ∀ z ∈ zs, z.client = .first := by
  intro z hz
  cases hw : z.client with
  | first => rfl
  | second =>
    have hm := mem_script hz
    simp [hw, h] at hm

theorem rest_inserts (hb : Body (script .first pre ++ script .first mid))
    (hmid : script .second mid = []) (hpre : ∃ x ∈ pre, x.client = .first) :
    ∀ e ∈ mid.map (·.event), ∃ row, e = .insert row := by
  intro e he
  obtain ⟨x, hx, rfl⟩ := List.mem_map.mp he
  obtain ⟨x', hx', hw⟩ := hpre
  have hm : x.call ∈ script .first mid := client_of_script hmid x hx ▸ mem_script hx
  cases hs : script .first pre with
  | nil =>
    have hm' := mem_script hx'
    simp [hw, hs] at hm'
  | cons call calls =>
    rw [hs] at hb
    obtain ⟨c, hcall⟩ := hb.tail x.call (List.mem_append_right _ hm)
    have hk := x.carries.sameKind
    rw [hcall] at hk
    exact hk

theorem rest_begins (hb : Body (script .first pre ++ script .first mid))
    (hmid : script .second mid = []) (hpre : ¬∃ x ∈ pre, x.client = .first) :
    ∃ x mid', mid = x :: mid' ∧ x.event = .begin := by
  have hnone : script .first pre = [] := by
    simpa [script] using hpre
  rw [hnone, List.nil_append] at hb
  obtain _ | ⟨x, mid'⟩ := mid
  · obtain ⟨env, cs, hcalls⟩ := hb
    cases hcalls
  · have hw : x.client = .first := client_of_script hmid x List.mem_cons_self
    have hx : Body (script x.client (x :: mid') ++ []) := by
      rw [List.append_nil, hw]
      exact hb
    exact ⟨x, mid', rfl, body_begins hx⟩

theorem commitFirst_of_split (content : List α) (hy : y.client = .first)
    (hr : y.call = .rollback r) (hz : z.client = .second) (hc : z.call = .commit c)
    (hb : ∀ w, Body (script w pre ++ script w mid)) (hmid : script .second mid = []) :
    CommitFirst p g content r c (pre ++ z :: (mid ++ [y])) := by
  have hye : y.event = .rollback := by simpa [hr, SameKind] using y.carries.sameKind
  have hze : z.event = .commit := by simpa [hc, SameKind] using z.carries.sameKind
  have hends' := right_not_ends hb
  have hcommit := SharedTransaction.run_commit (left_not_ends hb) content
  refine ⟨pre, z, mid, y, rfl, hz, hc, hy, hr, ?_, ?_⟩
  · rw [(after_simulated p g content _).file, List.map_append, List.map_singleton, hze, hcommit]
    rfl
  have hrun : run SharedTransaction.next ⟨content, none⟩
      ((pre ++ z :: (mid ++ [y])).map (·.event)) =
      run SharedTransaction.next ⟨content ++ rowsOf pre, none⟩
        (mid.map (·.event) ++ [.rollback]) := by
    have hsplit : (pre ++ z :: (mid ++ [y])).map (·.event) =
        (pre.map (·.event) ++ [.commit]) ++ (mid.map (·.event) ++ [.rollback]) := by
      simp [hye, hze]
    rw [hsplit, run_append, hcommit]
    rfl
  rw [(after_simulated p g content _).file, hrun]
  split
  · next hpre =>
    rw [SharedTransaction.run_late_rollback (rest_inserts (hb .first) hmid hpre)]
    rfl
  · next hpre =>
    obtain ⟨x, mid', rfl, hx⟩ := rest_begins (hb .first) hmid hpre
    rw [List.map_cons, List.forall_mem_cons] at hends'
    rw [List.map_cons, hx, SharedTransaction.run_begin_rollback hends'.2, List.append_nil]

end Splits

/-- Of two clients whose calls come in any order, one begins, inserts and rolls back, the
other one begins, inserts and commits. Whichever end comes first ends the transaction of
both. -/
theorem interleaved (content : List α) {zs : List (ClientCall α)} {r c : ExecEnv (List α)}
    {body body' : List (Call (List α))} (hbody : Body body) (hbody' : Body body')
    (hfirst : script .first zs = body ++ [.rollback r])
    (hsecond : script .second zs = body' ++ [.commit c]) :
    (RollbackFirst p g content r c zs ∨ CommitFirst p g content r c zs) ∧
      ∀ pre z post, zs = pre ++ z :: post → ∀ i, z.call = .insert i →
        ((insertValues p (after p g content pre) i).1 = true ↔ rowsOf [z] ≠ []) := by
  refine ⟨?_, ?_⟩
  · obtain rfl | ⟨ys, last, rfl⟩ := List.eq_nil_or_concat zs
    · simp at hfirst
    rw [List.concat_eq_append] at hfirst hsecond ⊢
    rw [script_append] at hfirst hsecond
    cases hw : last.client with
    | first =>
      simp only [script_cons, hw, if_true, reduceCtorEq, if_false, script_nil,
        List.append_nil] at hfirst hsecond
      obtain ⟨hys, hlast⟩ := List.append_inj' hfirst rfl
      obtain ⟨pre, z, mid, rfl, hz, hc, hpre, hmid⟩ := script_last hsecond
      simp only [script_append, script_cons, hz, reduceCtorEq, if_false] at hys
      rw [List.append_assoc, List.cons_append]
      refine .inr (commitFirst_of_split p g content hw (List.cons.inj hlast).1 hz hc ?_ hmid)
      intro w
      cases w with
      | first => exact hys ▸ hbody
      | second => rwa [hpre, hmid, List.append_nil]
    | second =>
      simp only [script_cons, hw, if_true, reduceCtorEq, if_false, script_nil,
        List.append_nil] at hfirst hsecond
      obtain ⟨hys, hlast⟩ := List.append_inj' hsecond rfl
      obtain ⟨pre, y, mid, rfl, hy, hr, hpre, hmid⟩ := script_last hfirst
      simp only [script_append, script_cons, hy, reduceCtorEq, if_false] at hys
      rw [List.append_assoc, List.cons_append]
      refine .inl (rollbackFirst_of_split p g content hy hr hw (List.cons.inj hlast).1 ?_ hmid)
      intro w
      cases w with
      | first => rwa [hpre, hmid, List.append_nil]
      | second => exact hys ▸ hbody'
  · rintro pre z post - i hi
    have hc := z.carries
    rw [hi] at hc
    simpa [rowsOf] using insertValues_returns p (after_simulated p g content pre) hc

def appendRow (n : ℕ) : InsertCall (List ℕ) := insertOne (.ran (.stored (· ++ [n])))

section Calls

variable (w : Client)

def beginCall : ClientCall ℕ := ⟨w, .begin (answers none), .begin, .begin rfl⟩
def commitCall : ClientCall ℕ := ⟨w, .commit (answers none), .commit, .commit rfl rfl⟩
def rollbackCall : ClientCall ℕ := ⟨w, .rollback (answers none), .rollback, .rollback rfl⟩
def appendCall (n : ℕ) : ClientCall ℕ :=
  ⟨w, .insert (appendRow n), .insert (some n),
    .stored (r := .stored (· ++ [n])) (by rfl) ⟨rfl, ⟨.inl rfl, rfl, rfl⟩, rfl, rfl⟩⟩

end Calls

def commitBetween : List (ClientCall ℕ) :=
  [beginCall .first, appendCall .first 1, beginCall .second, appendCall .second 2,
    commitCall .second, appendCall .first 3, rollbackCall .first]

theorem commitBetween_interleaved :
    (RollbackFirst .noConversion .controlOnly [0] (answers none) (answers none) commitBetween ∨
      CommitFirst .noConversion .controlOnly [0] (answers none) (answers none) commitBetween) ∧
    ∀ pre z post, commitBetween = pre ++ z :: post → ∀ i, z.call = .insert i →
      ((insertValues .noConversion (after .noConversion .controlOnly [0] pre) i).1 = true ↔
        rowsOf [z] ≠ []) :=
  interleaved .noConversion .controlOnly [0]
    ⟨answers none, [appendRow 1, appendRow 3], rfl⟩ ⟨answers none, [appendRow 2], rfl⟩ rfl rfl

def insertBefore : List (ClientCall ℕ) :=
  [beginCall .first, appendCall .first 1, beginCall .second, appendCall .second 2,
    rollbackCall .first, commitCall .second]

theorem insertBefore_lost :
    script .first insertBefore =
      [.begin (answers none), .insert (appendRow 1)] ++ [.rollback (answers none)] ∧
    script .second insertBefore =
      [.begin (answers none), .insert (appendRow 2)] ++ [.commit (answers none)] ∧
    (insertValues .noConversion (after .noConversion .controlOnly [] (insertBefore.take 3))
      (appendRow 2)).1 = true ∧
    2 ∉ (after .noConversion .controlOnly [] insertBefore).db.store.file :=
  ⟨rfl, rfl, by decide, by decide⟩

end SharedHandle
