import Styrolite.ForStd.Answers
import Styrolite.Spec.Footprint

/-!
# The kernel under styrolite

The rules of Linux that the two `wrap`s rest on, as a `Kernel`: eventfds, and the
namespaces with the procfs that each mount namespace shows at `/proc`. Calls that
concern neither may be answered in any way at any time, so every pattern of
success and failure of the other steps is among the runs.

A namespace is named by its kind and the serial number of the call that created
it. A process is named by its number in the process-id namespace of whoever
forked it, which is the number `fork` returned.
-/

namespace Styrolite

/-- An eventfd: its counter, and whether a read takes 1 or everything. -/
structure EfdState where
  count : Nat
  semaphore : Bool
  deriving DecidableEq, Repr

/-- The namespaces of all processes. -/
structure NsState where
  /-- Serial number of the newest namespace. -/
  serial : Nat
  /-- The namespace of each kind a process is in. -/
  ns : Int → Namespace → Nat
  /-- The namespace of each kind the next child of a process will be in. -/
  forChildren : Int → Namespace → Nat
  /-- The user namespace that owns a namespace. -/
  owner : Namespace → Nat → Nat
  /-- The process-id namespace of the procfs at `/proc` in a mount namespace. -/
  procView : Nat → Nat
  /-- The number of a process in a process-id namespace, if it has one there. -/
  number : Int → Nat → Option Int
  /-- How many processes a process-id namespace has numbered. -/
  members : Nat → Nat
  /-- The contents of `oom_score_adj` of a process. -/
  oom : Int → String

/-- What the processes share. -/
structure World where
  efd : Efd → EfdState
  ns : NsState

/-- An `unshare` of this kind moves only the children forked later. -/
def Namespace.deferred (ns : Namespace) : Prop := ns = pid ∨ ns = time

/-- The kind is compared with the two. -/
instance (ns : Namespace) : Decidable ns.deferred := inferInstanceAs (Decidable (_ ∨ _))

namespace NsState

/-- `unshare(2)`: a new namespace of each kind in the flag word. A new user namespace comes
    first and owns the others; a new mount namespace is a copy of the old. -/
def unshare (s : NsState) (p : Int) (flags : CInt) : NsState :=
  let new := s.serial + 1
  { s with
    serial := new
    ns := Function.update s.ns p fun k =>
      if k.inFlags flags ∧ ¬ k.deferred then new else s.ns p k
    forChildren := Function.update s.forChildren p fun k =>
      if k.inFlags flags then new else s.forChildren p k
    owner := fun k => Function.update (s.owner k) new
      (if k ≠ .user ∧ Namespace.user.inFlags flags then new else s.ns p .user)
    procView := Function.update s.procView new (s.procView (s.ns p .mount)) }

/-- `setns(2)` on a pidfd: the caller joins the namespaces of `target`, its children only the
    process-id namespace. -/
def setns (s : NsState) (p target : Int) (flags : CInt) : NsState :=
  { s with
    ns := Function.update s.ns p fun k =>
      if k.inFlags flags ∧ k ≠ .pid then s.ns target k else s.ns p k
    forChildren := Function.update s.forChildren p fun k =>
      if k.inFlags flags then s.ns target k else s.forChildren p k }

/-- `fork(2)`: the child `q` has a number for its parent and the next free one in a
    process-id namespace of its own. -/
def fork (s : NsState) (p q : Int) : NsState :=
  { s with
    ns := Function.update s.ns q (s.forChildren p)
    forChildren := Function.update s.forChildren q (s.forChildren p)
    number := Function.update s.number q fun id =>
      if id = s.ns p .pid then some q
      else if id = s.forChildren p .pid then some (s.members id + 1) else none
    members := Function.update s.members (s.forChildren p .pid)
      (s.members (s.forChildren p .pid) + 1)
    oom := Function.update s.oom q (s.oom p) }

/-- `pivot_root(2)` of `pivot_fs`: what is at `/proc` from now on is a procfs of the caller's
    process-id namespace. -/
def pivotRoot (s : NsState) (p : Int) : NsState :=
  { s with procView := Function.update s.procView (s.ns p .mount) (s.ns p .pid) }

/-- A write to `/proc/self/oom_score_adj`. -/
def setOom (s : NsState) (p : Int) (score : String) : NsState :=
  { s with oom := Function.update s.oom p score }

/-- The namespaces with the requested score of a process, if there is one. -/
def setScore (s : NsState) (p : Int) : Option Int → NsState
  | some score => s.setOom p (toString score)
  | none => s

/-- `/proc/self` resolves: the process has a number in the procfs it sees. -/
def visible (s : NsState) (p : Int) : Prop :=
  (s.number p (s.procView (s.ns p .mount))).isSome

/-- Both cases are decided by evaluation. -/
instance (s : NsState) (p : Int) : Decidable (s.visible p) :=
  inferInstanceAs (Decidable (_ = true))

/-- `/proc/<n>` seen by the process `viewer` is the directory of the process `p`. -/
def names (s : NsState) (viewer n p : Int) : Prop :=
  s.number p (s.procView (s.ns viewer .mount)) = some n

/-- The namespaces after a call and its answer. -/
def next (s : NsState) (p : Int) (c : Call) (a : c.Answer) : NsState :=
  match c, a with
  | .unshare flags, .ok () => s.unshare p flags
  | .setns target flags, .ok () => s.setns p target flags
  | .fork, .ok (.parent q) => s.fork p q
  | .pivotRoot _ _, .ok () => s.pivotRoot p
  | .procWrite .oomScoreAdj score, .ok () => s.setOom p score
  | _, _ => s

/-- The namespaces after `p` alone has made the calls of `h`. -/
def after (s : NsState) (p : Int) (h : List Event) : NsState :=
  h.foldl (fun s e => s.next p e.call e.answer) s

/-- Without an event nothing changes. -/
@[simp] theorem after_nil (s : NsState) (p : Int) : s.after p [] = s := rfl

/-- One event after the other. -/
@[simp] theorem after_cons (s : NsState) (p : Int) (e : Event) (h : List Event) :
    s.after p (e :: h) = (s.next p e.call e.answer).after p h := rfl

/-- One history after the other. -/
@[simp] theorem after_append (s : NsState) (p : Int) (h₁ h₂ : List Event) :
    s.after p (h₁ ++ h₂) = (s.after p h₁).after p h₂ := List.foldl_append

end NsState

/-! ## Eventfds -/

/-- The eventfds after a call and its answer. -/
def nextEfd (e : Efd → EfdState) (c : Call) (a : c.Answer) : Efd → EfdState :=
  match c, a with
  | .eventfd x initval flags, .ok () =>
    Function.update e x { count := initval, semaphore := flags = EFD_SEMAPHORE }
  | .efdWrite x v, .ok () => Function.update e x { e x with count := (e x).count + v }
  | .efdRead x, .ok _ =>
    Function.update e x { e x with count := if (e x).semaphore then (e x).count - 1 else 0 }
  | _, _ => e

/-- What the event adds to the counter of `x`. -/
def posts (x : Efd) (e : Event) : Nat :=
  match e with
  | ⟨.efdWrite y v, .ok ()⟩ => if y = x then v else 0
  | _ => 0

/-- What the event takes from the counter of `x`, a semaphore. -/
def takes (x : Efd) (e : Event) : Nat :=
  match e with
  | ⟨.efdRead y, .ok _⟩ => if y = x then 1 else 0
  | _ => 0

/-- What the history has added to the counter of `x`. -/
def posted (x : Efd) : List Event → Nat
  | [] => 0
  | e :: h => posts x e + posted x h

/-- What the history has taken from the counter of `x`. -/
def taken (x : Efd) : List Event → Nat
  | [] => 0
  | e :: h => takes x e + taken x h

/-! ## The kernel -/

/-- The answers Linux may give: a read of an eventfd waits for a nonzero counter, a parent is
    not told it is the child, and `/proc/self` has to resolve. -/
def World.allows (s : World) (p : Int) (c : Call) (a : c.Answer) : Prop :=
  match c, a with
  | .efdRead x, .ok n =>
    0 < (s.efd x).count ∧ n = if (s.efd x).semaphore then 1 else (s.efd x).count
  | .fork, .ok .child => False
  | .procWrite .oomScoreAdj _, .ok () => s.ns.visible p
  | _, _ => True

/-- A call changes the eventfds and the namespaces. -/
def World.next (s : World) (p : Int) (c : Call) (a : c.Answer) : World where
  efd := nextEfd s.efd c a
  ns := s.ns.next p c a

/-- `fork` starts the child, which resumes with the answer `child`. -/
def spawn (c : Call) (a : c.Answer) : Option (Int × c.Answer) :=
  match c, a with
  | .fork, .ok (.parent q) => some (q, .ok .child)
  | _, _ => none

/-- Linux, for the processes of one wrap: what it answers, what a call changes, and which call
    makes a process. -/
def linux : Kernel calls Int World where
  allows s p _ c a := s.allows p c a
  next := World.next
  spawn := spawn

/-- The state in which `root` starts a `wrap`: it has no namespace changes pending, sees its
    own process-id namespace at `/proc`, and serial numbers are handed out in order. -/
structure World.Initial (s : World) (root : Int) : Prop where
  forChildren : s.ns.forChildren root = s.ns.ns root
  procView : s.ns.procView (s.ns.ns root .mount) = s.ns.ns root .pid
  number : (s.ns.number root (s.ns.ns root .pid)).isSome
  bound : ∀ p k, s.ns.ns p k ≤ s.ns.serial
  unused : ∀ id, s.ns.serial < id → s.ns.members id = 0 ∧ ∀ p, s.ns.number p id = none

/-! ## What a call leaves alone -/

/-- Only calls on eventfds change them. -/
theorem nextEfd_of_kind (e : Efd → EfdState) {c : Call} (a : c.Answer)
    (h₁ : c.kind ≠ .eventfd) (h₂ : c.kind ≠ .efd) : nextEfd e c a = e := by
  unfold nextEfd
  split
  · exact absurd rfl h₁
  · exact absurd rfl h₂
  · exact absurd rfl h₂
  · rfl

/-- The kinds of calls that change namespaces. -/
def nsKinds : List Call.Kind := [.ns, .fork, .pivot, .oom]

/-- Only calls on namespaces change them. -/
theorem NsState.next_of_kind (s : NsState) (p : Int) {c : Call} (a : c.Answer)
    (h : c.kind ∉ nsKinds) : s.next p c a = s := by
  unfold NsState.next
  split
  · exact absurd (by simp [Call.kind, nsKinds]) h
  · exact absurd (by simp [Call.kind, nsKinds]) h
  · exact absurd (by simp [Call.kind, nsKinds]) h
  · exact absurd (by simp [Call.kind, nsKinds]) h
  · exact absurd (by simp [Call.kind, nsKinds]) h
  · rfl

/-- A history without calls of those kinds leaves the namespaces alone. -/
theorem NsState.after_of_kind (s : NsState) (p : Int) {h : List Event}
    (hk : ∀ e ∈ h, e.call.kind ∉ nsKinds) : s.after p h = s := by
  induction h generalizing s with
  | nil => rfl
  | cons e h ih =>
    rw [after_cons, next_of_kind s p e.answer (hk e List.mem_cons_self)]
    exact ih s fun e' he' => hk e' (List.mem_cons_of_mem e he')

/-- A program without such calls leaves the namespaces. -/
theorem NsState.after_of_uses {α : Type} (s : NsState) (pid : Int) {p q : Sys α}
    {ks : List Call.Kind} {h : List Event} (hp : p.Uses (Call.within ks))
    (hks : ∀ k ∈ ks, k ∉ nsKinds) (hr : p.Reaches h q) : s.after pid h = s :=
  s.after_of_kind pid fun e he => hks e.call.kind (hp.mem (e := e) hr he)

/-- A second pivot changes no more. -/
@[simp] theorem NsState.pivotRoot_pivotRoot (s : NsState) (p : Int) :
    (s.pivotRoot p).pivotRoot p = s.pivotRoot p := by
  simp [pivotRoot]

/-- A pivot is the only such call here. -/
private theorem NsState.next_pivot (s : NsState) (p : Int) (e : Event)
    (hk : e.call.kind ∈ nsKinds → e.call.kind = .pivot) :
    s.next p e.call e.answer = s ∨ s.next p e.call e.answer = s.pivotRoot p := by
  obtain ⟨c, a⟩ := e
  by_cases hin : c.kind ∈ nsKinds
  · have := hk hin
    unfold next
    split <;> simp_all [Call.kind]
  · exact .inl (next_of_kind s p a hin)

/-- A history whose only calls of those kinds are `pivot_root` changes at most what is at
    `/proc`. -/
theorem NsState.after_pivots (s : NsState) (p : Int) {h : List Event}
    (hk : ∀ e ∈ h, e.call.kind ∈ nsKinds → e.call.kind = .pivot) :
    s.after p h = s ∨ s.after p h = s.pivotRoot p := by
  induction h generalizing s with
  | nil => exact .inl rfl
  | cons e h ih =>
    have hk' := fun e' he' => hk e' (List.mem_cons_of_mem e he')
    rw [after_cons]
    rcases s.next_pivot p e (hk e List.mem_cons_self) with heq | heq <;> rw [heq]
    · exact ih s hk'
    · rcases ih (s.pivotRoot p) hk' with heq' | heq' <;> rw [heq']
      · exact .inr rfl
      · exact .inr (s.pivotRoot_pivotRoot p)

/-- A history with a pivot, and no other such call, is one pivot. -/
theorem NsState.after_pivot (s : NsState) (p : Int) {h : List Event}
    (hk : ∀ e ∈ h, e.call.kind ∈ nsKinds → e.call.kind = .pivot)
    (hp : ∃ n o, (⟨.pivotRoot n o, .ok ()⟩ : Event) ∈ h) : s.after p h = s.pivotRoot p := by
  -- The pivot that is there, and what may come before and after it
  obtain ⟨n, o, hmem⟩ := hp
  obtain ⟨h₁, h₂, rfl⟩ := List.append_of_mem hmem
  have h₁k := fun e he => hk e (List.mem_append_left _ he)
  have h₂k := fun e he => hk e (List.mem_append_right _ (List.mem_cons_of_mem _ he))
  have hnext : ∀ s : NsState, s.next p (.pivotRoot n o) (.ok ()) = s.pivotRoot p := fun _ => rfl
  have hstay : (s.pivotRoot p).after p h₂ = s.pivotRoot p := by
    rcases (s.pivotRoot p).after_pivots p h₂k with heq | heq <;> rw [heq]
    exact s.pivotRoot_pivotRoot p
  rw [after_append, after_cons]
  rcases s.after_pivots p h₁k with heq | heq <;> rw [heq, hnext]
  · exact hstay
  · rw [pivotRoot_pivotRoot]
    exact hstay

/-- Only a fork makes a process. -/
theorem spawn_none {c : Call} (a : c.Answer) (hc : c ≠ .fork) : spawn c a = none := by
  unfold spawn
  split
  · exact absurd rfl hc
  · rfl

/-- A fork makes the child that its answer names. -/
theorem spawn_some {a b : Except Errno ForkResult} {q : Int}
    (hs : spawn .fork a = some (q, b)) : a = .ok (.parent q) ∧ b = .ok .child := by
  match a, hs with
  | .ok (.parent _), hs =>
    cases hs
    exact ⟨rfl, rfl⟩

/-- A program without a fork makes no process. -/
theorem noSpawn_of_uses {α : Type} {p : Sys α} {ks : List Call.Kind}
    (hp : p.Uses (Call.within ks)) (hks : Call.Kind.fork ∉ ks) : p.Uses linux.NoSpawn :=
  hp.mono fun _ hc a => spawn_none a fun heq => by
    subst heq
    exact hks hc

/-- Where a process forks after a program without a fork whose calls are allowed, some run has the
    two processes at the two sides of the fork. -/
theorem exists_forked {σ α : Type} {K : Kernel calls Int σ} {root child : Int} {s : σ}
    {pre : Sys Unit} {h : List Event} (hspawn : ∀ (c : Call) (a : c.Answer), K.spawn c a = spawn c a)
    (hpre : pre.Runs h (.ok ())) (hl : K.Lawful s root h)
    (hfork : K.allows (K.after s root h) root h Call.fork
      (Except.ok (ForkResult.parent child) : Except Errno ForkResult))
    (hno : ∀ e ∈ h, e.call ≠ .fork) (hne : child ≠ root)
    (body : Except Errno ForkResult → Sys α) :
    ∃ cfg, K.Reachable root (pre >>= fun _ => .call (I := calls) .fork body) s cfg ∧
      cfg.procs root = some ⟨h ++ [⟨.fork, .ok (.parent child)⟩], body (.ok (.parent child))⟩ ∧
      cfg.procs child = some ⟨h ++ [⟨.fork, .ok .child⟩], body (.ok .child)⟩ := by
  have hvalid : (⟨(), h, (Except.ok (ForkResult.parent child) : Except Errno ForkResult), child,
      (Except.ok ForkResult.child : Except Errno ForkResult)⟩ :
        Kernel.ForkPoint calls Int Unit Call.fork).Valid K root s pre :=
    ⟨hpre, hl, hfork, hspawn _ _, hne⟩
  exact hvalid.exists_forked (fun _ => body) fun e he =>
    (hspawn _ _).trans (spawn_none _ (hno e he))

/-- The kernel's step is the world's. -/
@[simp] theorem linux_next (s : World) (p : Int) (c : Call) (a : c.Answer) :
    linux.next s p c a = s.next p c a := rfl

/-- The namespaces of the world go their own way. -/
@[simp] theorem linux_after_ns (s : World) (p : Int) (h : List Event) :
    (linux.after s p h).ns = s.ns.after p h := by
  induction h generalizing s with
  | nil => rfl
  | cons e h ih => exact ih _

/-! ## Tokens -/

/-- Nothing is posted by no event. -/
@[simp] theorem posted_nil (x : Efd) : posted x [] = 0 := rfl

/-- Nothing is taken by no event. -/
@[simp] theorem taken_nil (x : Efd) : taken x [] = 0 := rfl

/-- Posts add up. -/
@[simp] theorem posted_append (x : Efd) (h₁ h₂ : List Event) :
    posted x (h₁ ++ h₂) = posted x h₁ + posted x h₂ := by
  induction h₁ with
  | nil => exact (Nat.zero_add _).symm
  | cons e h ih =>
    show posts x e + posted x (h ++ h₂) = posts x e + posted x h + posted x h₂
    omega

/-- Reads add up. -/
@[simp] theorem taken_append (x : Efd) (h₁ h₂ : List Event) :
    taken x (h₁ ++ h₂) = taken x h₁ + taken x h₂ := by
  induction h₁ with
  | nil => exact (Nat.zero_add _).symm
  | cons e h ih =>
    show takes x e + taken x (h ++ h₂) = takes x e + taken x h + taken x h₂
    omega

/-- The posts of the first event, and of the rest. -/
@[simp] theorem posted_cons (x : Efd) (e : Event) (h : List Event) :
    posted x (e :: h) = posts x e + posted x h := rfl

/-- The reads of the first event, and of the rest. -/
@[simp] theorem taken_cons (x : Efd) (e : Event) (h : List Event) :
    taken x (e :: h) = takes x e + taken x h := rfl

/-- A token in the counter was put there by a write in the history. -/
theorem exists_write_of_posted {x : Efd} {h : List Event} (hp : 0 < posted x h) :
    ∃ v, (⟨.efdWrite x v, .ok ()⟩ : Event) ∈ h := by
  -- The write is the first event, or a later one
  induction h with
  | nil => exact absurd hp (Nat.lt_irrefl 0)
  | cons e h ih =>
    by_cases hh : 0 < posted x h
    · obtain ⟨v, hv⟩ := ih hh
      exact ⟨v, List.mem_cons_of_mem e hv⟩
    · have he : 0 < posts x e := by
        rw [posted_cons] at hp
        omega
      unfold posts at he
      split at he
      · next y v =>
        split at he
        · next hy => exact ⟨v, by rw [hy]; exact List.mem_cons_self⟩
        · exact absurd he (Nat.lt_irrefl 0)
      · exact absurd he (Nat.lt_irrefl 0)

/-- What was taken from the counter was taken by a read in the history. -/
theorem exists_read_of_taken {x : Efd} {h : List Event} (ht : 0 < taken x h) :
    ∃ n, (⟨.efdRead x, .ok n⟩ : Event) ∈ h := by
  -- The read is the first event, or a later one
  induction h with
  | nil => exact absurd ht (Nat.lt_irrefl 0)
  | cons e h ih =>
    by_cases hh : 0 < taken x h
    · obtain ⟨n, hn⟩ := ih hh
      exact ⟨n, List.mem_cons_of_mem e hn⟩
    · have he : 0 < takes x e := by
        rw [taken_cons] at ht
        omega
      unfold takes at he
      split at he
      · next y n =>
        split at he
        · next hy => exact ⟨n, by rw [hy]; exact List.mem_cons_self⟩
        · exact absurd he (Nat.lt_irrefl 0)
      · exact absurd he (Nat.lt_irrefl 0)

/-- Without a read nothing is taken. -/
theorem taken_eq_zero {x : Efd} {h : List Event} (hno : ∀ e ∈ h, e.call ≠ .efdRead x) :
    taken x h = 0 := by
  by_contra hne
  obtain ⟨n, hn⟩ := exists_read_of_taken (Nat.pos_of_ne_zero hne)
  exact hno _ hn rfl

/-- A read has taken something. -/
theorem taken_pos {x : Efd} {h : List Event} {n : Nat}
    (hm : (⟨.efdRead x, .ok n⟩ : Event) ∈ h) : 0 < taken x h := by
  obtain ⟨h₁, h₂, rfl⟩ := List.append_of_mem hm
  simp only [taken_append, taken_cons, takes, if_true]
  omega

/-- Without a write nothing is posted. -/
theorem posted_eq_zero {x : Efd} {h : List Event}
    (hno : ∀ e ∈ h, ∀ v, e.call ≠ .efdWrite x v) : posted x h = 0 := by
  by_contra hne
  obtain ⟨v, hv⟩ := exists_write_of_posted (Nat.pos_of_ne_zero hne)
  exact hno _ hv v rfl

/-- A call by one process keeps the balance of a semaphore's counter. -/
theorem nextEfd_balance {e : Efd → EfdState} {c : Call} {a : c.Answer} (x : Efd)
    (hk : c.kind ≠ .eventfd) (hsem : (e x).semaphore = true)
    (hread : ∀ n, (⟨c, a⟩ : Event) = ⟨.efdRead x, .ok n⟩ → 0 < (e x).count) :
    (nextEfd e c a x).semaphore = true ∧
      (nextEfd e c a x).count + takes x ⟨c, a⟩ = (e x).count + posts x ⟨c, a⟩ := by
  unfold nextEfd
  split
  · exact absurd rfl hk
  · next y v =>
    -- A write to `y`
    by_cases hy : y = x
    · subst hy
      simp [takes, posts, hsem]
    · simp [takes, posts, hy, Function.update_of_ne (Ne.symm hy), hsem]
  · next y n =>
    -- A read of `y`, which takes one from a semaphore
    by_cases hy : y = x
    · subst hy
      have := hread n rfl
      simp only [Function.update_self, hsem, if_true, takes, posts, true_and]
      omega
    · simp [takes, posts, hy, Function.update_of_ne (Ne.symm hy), hsem]
  · next hne₁ hne₂ hne₃ =>
    -- Any other call neither takes nor posts
    have ht : takes x ⟨c, a⟩ = 0 := by
      unfold takes
      split
      · next y n heq => cases heq; exact (hne₃ _ _ rfl HEq.rfl).elim
      · rfl
    have hp : posts x ⟨c, a⟩ = 0 := by
      unfold posts
      split
      · next y v heq => cases heq; exact (hne₂ _ _ rfl HEq.rfl).elim
      · rfl
    rw [ht, hp]
    exact ⟨hsem, rfl⟩

end Styrolite
