/-!
# Programs that call an environment

A `Prog` is a program written against an `Interface`: a type of calls and, for
each call, the type of the answers the environment may give. It ends with a
value, with an error, or by halting the process. Nothing is assumed about the
answers, so a fact about every history of a program holds under every pattern
of success and failure of its calls.

`Reaches p h q` says that `p`, after the history `h`, has become `q`; `Runs`
and `At` are its two uses (a finished run, and a call about to be made). The
lemmas for `>>=` cut a history where the program is cut.
-/

/-- The calls a program may make and the type of the answer to each. -/
structure Interface where
  Call : Type
  Answer : Call → Type

/-- One call together with the answer it was given. -/
structure Interface.Event (I : Interface) where
  call : I.Call
  answer : I.Answer call

/-- How a program ends: with a value, with an error, or by halting the process. -/
inductive Outcome (ε α : Type) where
  | ok (a : α)
  | err (e : ε)
  | halt (code : Int)
  deriving DecidableEq, Repr

/-- A program over the interface `I` with errors in `ε` and results in `α`. -/
inductive Prog (I : Interface) (ε α : Type) where
  | done (r : Outcome ε α)
  | call (c : I.Call) (k : I.Answer c → Prog I ε α)

namespace Prog

variable {I : Interface} {ε ε' α β : Type}

/-- Sequencing: an error or a halt ends the whole program. -/
protected def bind : Prog I ε α → (α → Prog I ε β) → Prog I ε β
  | done (.ok a), f => f a
  | done (.err e), _ => done (.err e)
  | done (.halt n), _ => done (.halt n)
  | call c k, f => call c fun a => (k a).bind f

/-- Programs are put in sequence by `Prog.bind`. -/
instance : Monad (Prog I ε) where
  pure a := done (.ok a)
  bind := Prog.bind

/-- Make the call `c` and return its answer. -/
def sys (c : I.Call) : Prog I ε (I.Answer c) := call c pure

/-- End with the error `e`. -/
def fail (e : ε) : Prog I ε α := done (.err e)

/-- Halt the process with the given exit code. -/
def halt (code : Int) : Prog I ε α := done (.halt code)

/-- The value of an `Except`, or the program's own error made from its error. -/
def check (f : ε' → ε) : Except ε' α → Prog I ε α
  | .ok a => pure a
  | .error e => fail (f e)

/-- Translate the error a program ends with. -/
def mapErr (f : ε → ε') : Prog I ε α → Prog I ε' α
  | done (.ok a) => done (.ok a)
  | done (.err e) => done (.err (f e))
  | done (.halt n) => done (.halt n)
  | call c k => call c fun a => (k a).mapErr f

/-- Turn the error a program ends with into a value. A halt stays a halt. -/
def attempt : Prog I ε α → Prog I ε' (Except ε α)
  | done (.ok a) => done (.ok (.ok a))
  | done (.err e) => done (.ok (.error e))
  | done (.halt n) => done (.halt n)
  | call c k => call c fun a => (k a).attempt

/-- `p` if the condition holds, else nothing. -/
def when (P : Prop) [Decidable P] (p : Prog I ε PUnit) : Prog I ε PUnit :=
  if P then p else pure ⟨⟩

/-- `f` on the value of an option, if it has one. -/
def whenSome : Option β → (β → Prog I ε PUnit) → Prog I ε PUnit
  | some x, f => f x
  | none, _ => pure ⟨⟩

/-! ## Monad laws and normal forms -/

/-- What follows a value goes on from it. -/
@[simp] theorem ok_bind (a : α) (f : α → Prog I ε β) : (done (.ok a) >>= f) = f a := rfl

/-- Nothing follows an error. -/
@[simp] theorem err_bind (e : ε) (f : α → Prog I ε β) :
    (done (.err e) >>= f) = done (.err e) := rfl

/-- Nothing follows a halt. -/
@[simp] theorem halt_bind (n : Int) (f : α → Prog I ε β) :
    (done (.halt n) >>= f) = done (.halt n) := rfl

/-- Nothing follows `fail`. -/
@[simp] theorem fail_bind (e : ε) (f : α → Prog I ε β) : (fail e >>= f) = fail e := rfl

/-- A check that is passed is its value. -/
@[simp] theorem check_ok (f : ε' → ε) (a : α) :
    (check f (.ok a) : Prog I ε α) = pure a := rfl

/-- A check that fails is the program's own error. -/
@[simp] theorem check_error (f : ε' → ε) (e : ε') :
    (check f (.error e) : Prog I ε α) = fail (f e) := rfl

/-- A sequence that begins with a call makes that call first. -/
@[simp] theorem call_bind (c : I.Call) (k : I.Answer c → Prog I ε α) (f : α → Prog I ε β) :
    (call c k >>= f) = call c fun a => k a >>= f := rfl

/-- The monad laws, each by induction on the first program. -/
instance : LawfulMonad (Prog I ε) :=
  .mk' _
    (fun p => by
      -- Right identity
      show p.bind (fun a => pure (id a)) = p
      induction p with
      | done r => cases r <;> rfl
      | call c k ih => simp only [Prog.bind, ih])
    (fun _ _ => rfl)
    (fun p f g => by
      -- Associativity
      show (p.bind f).bind g = p.bind fun a => (f a).bind g
      induction p with
      | done r => cases r <;> rfl
      | call c k ih => simp only [Prog.bind, ih])

/-! ## Histories -/

/-- `p.Reaches h q`: the calls and answers in `h` take `p` to `q`. -/
inductive Reaches : Prog I ε α → List I.Event → Prog I ε α → Prop where
  | refl (p : Prog I ε α) : Reaches p [] p
  | call {c : I.Call} {k : I.Answer c → Prog I ε α} {a : I.Answer c} {h : List I.Event}
      {q : Prog I ε α} (hk : Reaches (k a) h q) : Reaches (.call c k) (⟨c, a⟩ :: h) q

/-- `p.Runs h r`: with history `h` the program ends with the outcome `r`. -/
def Runs (p : Prog I ε α) (h : List I.Event) (r : Outcome ε α) : Prop := p.Reaches h (.done r)

/-- `p.At h c`: after the history `h` the program is about to make the call `c`. -/
def At (p : Prog I ε α) (h : List I.Event) (c : I.Call) : Prop := ∃ k, p.Reaches h (.call c k)

/-- A program that has ended stays where it is. -/
theorem reaches_done {r : Outcome ε α} {h : List I.Event} {q : Prog I ε α} :
    (done r).Reaches h q ↔ h = [] ∧ q = done r := by
  constructor
  · intro hr
    cases hr
    exact ⟨rfl, rfl⟩
  · rintro ⟨rfl, rfl⟩
    exact .refl _

/-- A history of a call is empty, or begins with that call and its answer. -/
theorem reaches_call {c : I.Call} {k : I.Answer c → Prog I ε α} {h : List I.Event}
    {q : Prog I ε α} :
    (call c k).Reaches h q ↔
      (h = [] ∧ q = call c k) ∨ ∃ a h', h = ⟨c, a⟩ :: h' ∧ (k a).Reaches h' q := by
  -- By the two constructors of `Reaches`
  constructor
  · intro hr
    cases hr with
    | refl => exact .inl ⟨rfl, rfl⟩
    | call hk => exact .inr ⟨_, _, rfl, hk⟩
  · rintro (⟨rfl, rfl⟩ | ⟨a, h', rfl, hk⟩)
    · exact .refl _
    · exact .call hk

/-- Histories are put one after the other. -/
theorem Reaches.trans {p q s : Prog I ε α} {h₁ h₂ : List I.Event}
    (hp : p.Reaches h₁ q) (hq : q.Reaches h₂ s) : p.Reaches (h₁ ++ h₂) s := by
  induction hp with
  | refl p => exact hq
  | call _ ih => exact .call (ih hq)

/-- A history cut anywhere passes through some program. -/
theorem Reaches.split {p q : Prog I ε α} {h₁ h₂ : List I.Event}
    (hp : p.Reaches (h₁ ++ h₂) q) : ∃ s, p.Reaches h₁ s ∧ s.Reaches h₂ q := by
  induction h₁ generalizing p with
  | nil => exact ⟨p, .refl p, hp⟩
  | cons e h₁ ih =>
    cases hp with
    | call hk =>
      obtain ⟨s, hs₁, hs₂⟩ := ih hk
      exact ⟨s, .call hs₁, hs₂⟩

/-- After the history `h`, a run of `p` has begun, is not over, and is about to make the
    call `c`. -/
def Inside (p : Prog I ε α) (h : List I.Event) (c : I.Call) : Prop :=
  ∃ h₁ h₂, h = h₁ ++ h₂ ∧ h₂ ≠ [] ∧ p.At h₂ c

/-- A program is determined by its history. -/
theorem Reaches.unique {p q s : Prog I ε α} {h : List I.Event}
    (hq : p.Reaches h q) (hs : p.Reaches h s) : q = s := by
  induction hq with
  | refl p => cases hs; rfl
  | call _ ih =>
    cases hs with
    | call hk => exact ih hk

/-- Each event of a history was once the call about to be made. -/
theorem Reaches.at_of_split {p q : Prog I ε α} {h₁ h₂ : List I.Event} {e : I.Event}
    (hp : p.Reaches (h₁ ++ e :: h₂) q) : p.At h₁ e.call := by
  obtain ⟨s, hs₁, hs₂⟩ := hp.split
  cases hs₂ with
  | call _ => exact ⟨_, hs₁⟩

/-- One more call, at the end of a history. -/
theorem Reaches.snoc {p : Prog I ε α} {h : List I.Event} {c : I.Call}
    {k : I.Answer c → Prog I ε α} (hp : p.Reaches h (.call c k)) (a : I.Answer c) :
    p.Reaches (h ++ [⟨c, a⟩]) (k a) :=
  hp.trans (.call (.refl _))

/-- A history of `p >>= f` is one of `p` alone, or a finished run of `p` and one of `f`. -/
theorem reaches_bind {p : Prog I ε α} {f : α → Prog I ε β} {h : List I.Event}
    {q : Prog I ε β} :
    (p >>= f).Reaches h q ↔
      (∃ p', p.Reaches h p' ∧ q = p' >>= f) ∨
        ∃ a h₁ h₂, p.Runs h₁ (.ok a) ∧ (f a).Reaches h₂ q ∧ h = h₁ ++ h₂ := by
  constructor
  · intro hr
    -- Induction on `p`: where it is done, `p >>= f` is what follows
    induction p generalizing h with
    | done r =>
      cases r with
      | ok a => exact .inr ⟨a, [], h, .refl _, hr, rfl⟩
      | err e =>
        obtain ⟨rfl, rfl⟩ := reaches_done.1 hr
        exact .inl ⟨_, .refl _, rfl⟩
      | halt n =>
        obtain ⟨rfl, rfl⟩ := reaches_done.1 hr
        exact .inl ⟨_, .refl _, rfl⟩
    | call c k ih =>
      -- Either nothing has been called, or the first call is `p`'s
      rcases reaches_call.1 hr with ⟨rfl, rfl⟩ | ⟨a, h', rfl, hk⟩
      · exact .inl ⟨_, .refl _, rfl⟩
      · rcases ih a hk with ⟨p', hp', rfl⟩ | ⟨b, h₁, h₂, h₁r, h₂r, rfl⟩
        · exact .inl ⟨p', .call hp', rfl⟩
        · exact .inr ⟨b, _, h₂, .call h₁r, h₂r, rfl⟩
  · rintro (⟨p', hp', rfl⟩ | ⟨a, h₁, h₂, h₁r, h₂r, rfl⟩)
    · -- `p` is not done: each call of it is one of `p >>= f`
      induction hp' with
      | refl p => exact .refl _
      | call _ ih => exact .call ih
    · -- After its run `p` is done, and `p >>= f` goes on as `f a`
      have hpre : (p >>= f).Reaches h₁ (f a) := by
        clear h₂r
        generalize hq : done (.ok a) = q at h₁r
        unfold Runs at h₁r
        rw [hq] at h₁r
        induction h₁r with
        | refl p => subst hq; exact .refl _
        | call _ ih => exact .call (ih hq)
      exact hpre.trans h₂r

/-- What is left of `p >>= f` after a finished run of `p`. -/
theorem Reaches.after_runs {p : Prog I ε α} {f : α → Prog I ε β} {h₁ h₂ : List I.Event} {a : α}
    {q : Prog I ε β} (hp : p.Runs h₁ (.ok a)) (hq : (p >>= f).Reaches (h₁ ++ h₂) q) :
    (f a).Reaches h₂ q := by
  obtain ⟨s, hs₁, hs₂⟩ := hq.split
  have hpre : (p >>= f).Reaches h₁ (f a) :=
    reaches_bind.2 (.inr ⟨a, h₁, [], hp, .refl _, (List.append_nil h₁).symm⟩)
  rwa [hs₁.unique hpre] at hs₂

/-! ## Finished runs -/

/-- A program that has ended runs with no event. -/
@[simp] theorem runs_done {r s : Outcome ε α} {h : List I.Event} :
    (done r).Runs h s ↔ h = [] ∧ s = r := by
  simp only [Runs, reaches_done, done.injEq]

/-- `pure` makes no call. -/
@[simp] theorem runs_pure {a : α} {s : Outcome ε α} {h : List I.Event} :
    (pure a : Prog I ε α).Runs h s ↔ h = [] ∧ s = .ok a := runs_done

/-- `fail` makes no call. -/
@[simp] theorem runs_fail {e : ε} {s : Outcome ε α} {h : List I.Event} :
    (fail e : Prog I ε α).Runs h s ↔ h = [] ∧ s = .err e := runs_done

/-- `halt` makes no call. -/
@[simp] theorem runs_halt {n : Int} {s : Outcome ε α} {h : List I.Event} :
    (halt n : Prog I ε α).Runs h s ↔ h = [] ∧ s = .halt n := runs_done

/-- A run of a call: its answer, and a run of what goes on from that answer. -/
@[simp] theorem runs_call {c : I.Call} {k : I.Answer c → Prog I ε α} {h : List I.Event}
    {r : Outcome ε α} :
    (call c k).Runs h r ↔ ∃ a h', h = ⟨c, a⟩ :: h' ∧ (k a).Runs h' r := by
  simp only [Runs, reaches_call, reduceCtorEq, and_false, false_or]

/-- A single call always ends well, with its answer. -/
@[simp] theorem runs_sys {c : I.Call} {h : List I.Event} {r : Outcome ε (I.Answer c)} :
    (sys c : Prog I ε _).Runs h r ↔ ∃ a, h = [⟨c, a⟩] ∧ r = .ok a := by
  simp only [sys, runs_call, runs_pure]
  constructor
  · rintro ⟨a, h', rfl, rfl, rfl⟩
    exact ⟨a, rfl, rfl⟩
  · rintro ⟨a, rfl, rfl⟩
    exact ⟨a, [], rfl, rfl, rfl⟩

/-- A check makes no call, and ends as its argument says. -/
@[simp] theorem runs_check {f : ε' → ε} {x : Except ε' α} {h : List I.Event}
    {r : Outcome ε α} :
    (check f x : Prog I ε α).Runs h r ↔
      h = [] ∧ ((∃ a, x = .ok a ∧ r = .ok a) ∨ ∃ e, x = .error e ∧ r = .err (f e)) := by
  cases x <;> simp [check]

/-- A run of `p >>= f` that ends with a value passes through a value of `p`. -/
@[simp] theorem runs_bind_ok {p : Prog I ε α} {f : α → Prog I ε β} {h : List I.Event} {b : β} :
    (p >>= f).Runs h (.ok b) ↔
      ∃ a h₁ h₂, p.Runs h₁ (.ok a) ∧ (f a).Runs h₂ (.ok b) ∧ h = h₁ ++ h₂ := by
  simp only [Runs, reaches_bind]
  constructor
  · -- If `p` is not done with a value, neither is `p >>= f`
    rintro (⟨p', hp', heq⟩ | hr)
    · cases p' with
      | done r =>
        cases r with
        | ok a => exact ⟨a, h, [], hp', by rw [heq]; exact .refl _, by simp⟩
        | err e => cases heq
        | halt n => cases heq
      | call c k => cases heq
    · exact hr
  · exact .inr

/-- A conditional step ends well if it is not taken, or is taken and ends well. -/
@[simp] theorem runs_when_ok {P : Prop} [Decidable P] {p : Prog I ε PUnit}
    {h : List I.Event} :
    (when P p).Runs h (.ok ⟨⟩) ↔ (P → p.Runs h (.ok ⟨⟩)) ∧ (¬ P → h = []) := by
  unfold when
  split
  · next hP => simp [hP]
  · next hP => simp [hP]

/-- An optional step ends well if there is no value, or it ends well on the value. -/
@[simp] theorem runs_whenSome_ok {o : Option β} {f : β → Prog I ε PUnit} {h : List I.Event} :
    (whenSome o f).Runs h (.ok ⟨⟩) ↔
      (∀ x, o = some x → (f x).Runs h (.ok ⟨⟩)) ∧ (o = none → h = []) := by
  cases o <;> simp [whenSome]

/-- Errors apart, a translated program has the runs of the program. -/
theorem runs_mapErr_ok {f : ε → ε'} {p : Prog I ε α} {h : List I.Event} {a : α} :
    (p.mapErr f).Runs h (.ok a) ↔ p.Runs h (.ok a) := by
  induction p generalizing h with
  | done r => cases r <;> simp [mapErr]
  | call c k ih => simp only [mapErr, runs_call, ih]

/-- `attempt` ends with the value or the error that the program ends with. -/
theorem runs_attempt_ok {p : Prog I ε α} {h : List I.Event} {x : Except ε α} :
    (p.attempt : Prog I ε' _).Runs h (.ok x) ↔
      (∃ a, x = .ok a ∧ p.Runs h (.ok a)) ∨ ∃ e, x = .error e ∧ p.Runs h (.err e) := by
  induction p generalizing h with
  | done r => cases r <;> simp [attempt, and_left_comm, and_comm, eq_comm]
  | call c k ih =>
    simp only [attempt, runs_call, ih]
    -- A value or an error, on either side after the same call
    constructor
    · rintro ⟨a, h', rfl, ⟨b, rfl, hb⟩ | ⟨e, rfl, he⟩⟩
      · exact .inl ⟨b, rfl, a, h', rfl, hb⟩
      · exact .inr ⟨e, rfl, a, h', rfl, he⟩
    · rintro (⟨b, rfl, a, h', rfl, hb⟩ | ⟨e, rfl, a, h', rfl, he⟩)
      · exact ⟨a, h', rfl, .inl ⟨b, rfl, hb⟩⟩
      · exact ⟨a, h', rfl, .inr ⟨e, rfl, he⟩⟩

attribute [simp] runs_mapErr_ok

/-- What fails first makes the whole fail. -/
theorem Runs.bind_err {p : Prog I ε α} {h : List I.Event} {e : ε} (hp : p.Runs h (.err e))
    (f : α → Prog I ε β) : (p >>= f).Runs h (.err e) :=
  reaches_bind.2 (.inl ⟨_, hp, rfl⟩)

/-- A run of `p` that ends with a value goes on as a run of what follows. -/
theorem Runs.bind {p : Prog I ε α} {f : α → Prog I ε β} {h₁ h₂ : List I.Event} {a : α}
    {r : Outcome ε β} (hp : p.Runs h₁ (.ok a)) (hf : (f a).Runs h₂ r) :
    (p >>= f).Runs (h₁ ++ h₂) r :=
  reaches_bind.2 (.inr ⟨a, h₁, h₂, hp, hf, rfl⟩)

/-- The error of a translated program is the translated error. -/
theorem Runs.mapErr_err {p : Prog I ε α} {h : List I.Event} {e : ε} (hp : p.Runs h (.err e))
    (f : ε → ε') : (p.mapErr f).Runs h (.err (f e)) := by
  induction p generalizing h with
  | done r =>
    obtain ⟨rfl, rfl⟩ := runs_done.1 hp
    exact .refl _
  | call c k ih =>
    obtain ⟨a, h', rfl, hr⟩ := runs_call.1 hp
    exact .call (ih a hr)

/-- A history has at most one finished run of the program at its beginning. -/
theorem Runs.eq_of_append {p : Prog I ε α} {h₁ h₂ t₁ t₂ : List I.Event} {r₁ r₂ : Outcome ε α}
    (hr₁ : p.Runs h₁ r₁) (hr₂ : p.Runs h₂ r₂) (heq : h₁ ++ t₁ = h₂ ++ t₂) : h₁ = h₂ := by
  induction p generalizing h₁ h₂ with
  | done r => rw [(runs_done.1 hr₁).1, (runs_done.1 hr₂).1]
  | call c k ih =>
    obtain ⟨a₁, h₁', rfl, hk₁⟩ := runs_call.1 hr₁
    obtain ⟨a₂, h₂', rfl, hk₂⟩ := runs_call.1 hr₂
    rw [List.cons_append, List.cons_append, List.cons.injEq] at heq
    obtain ⟨he, hrest⟩ := heq
    cases he
    rw [ih a₁ hk₁ hk₂ hrest]

/-- One more turn of a loop. -/
theorem Runs.forM_concat {l : List β} {x : β} {f : β → Prog I ε PUnit} {h₁ h₂ : List I.Event}
    (hl : (forM l f).Runs h₁ (.ok ⟨⟩)) (hx : (f x).Runs h₂ (.ok ⟨⟩)) :
    (forM (l ++ [x]) f).Runs (h₁ ++ h₂) (.ok ⟨⟩) := by
  have hone : (forM [x] f).Runs (h₂ ++ []) (.ok ⟨⟩) := by
    rw [List.forM_cons]
    exact hx.bind (.refl _)
  rw [List.append_nil] at hone
  rw [List.forM_append]
  exact hl.bind hone

/-- What each turn of a loop keeps of what the run has come to. -/
theorem Runs.forM_induction {l : List β} {f : β → Prog I ε PUnit} {h : List I.Event}
    {J : List β → List I.Event → Prop} (hr : (forM l f).Runs h (.ok ⟨⟩)) (hnil : J [] [])
    (hstep : ∀ l₁ x l₂ h₁ h₂ h₃, l = l₁ ++ x :: l₂ → h = h₁ ++ (h₂ ++ h₃) →
      (ForM.forM l₁ f).Runs h₁ (.ok ⟨⟩) → (f x).Runs h₂ (.ok ⟨⟩) → J l₁ h₁ →
        J (l₁ ++ [x]) (h₁ ++ h₂)) : J l h := by
  -- Induction on the turns still to come, with what the turns before have made of `J`
  suffices hrest : ∀ l₂ l₁ h₁ h₂, l = l₁ ++ l₂ → h = h₁ ++ h₂ →
      (ForM.forM l₁ f).Runs h₁ (.ok ⟨⟩) → J l₁ h₁ → (ForM.forM l₂ f).Runs h₂ (.ok ⟨⟩) → J l h from
    hrest l [] [] h rfl rfl (.refl _) hnil hr
  intro l₂
  induction l₂ with
  | nil =>
    rintro l₁ h₁ h₂ rfl rfl - hJ hr₂
    obtain ⟨rfl, -⟩ := runs_pure.1 hr₂
    rwa [List.append_nil, List.append_nil]
  | cons x l₂ ih =>
    intro l₁ h₁ h₂ hl hh hr₁ hJ hr₂
    rw [List.forM_cons] at hr₂
    obtain ⟨_, h₃, h₄, hx, hrest, rfl⟩ := runs_bind_ok.1 hr₂
    -- The turn done is the last of those before
    exact ih (l₁ ++ [x]) (h₁ ++ h₃) h₄ (by rw [hl, List.append_assoc]; rfl)
      (by rw [hh, List.append_assoc]) (hr₁.forM_concat hx) (hstep l₁ x l₂ h₁ h₃ h₄ hl hh hr₁ hx hJ)
      hrest

/-! ## The call about to be made -/

/-- A program that has ended is about to make no call. -/
@[simp] theorem at_done {r : Outcome ε α} {h : List I.Event} {c : I.Call} :
    ¬ (done r).At h c := by
  simp [At, reaches_done]

/-- `pure` is about to make no call. -/
@[simp] theorem at_pure {a : α} {h : List I.Event} {c : I.Call} :
    ¬ (pure a : Prog I ε α).At h c := at_done

/-- `fail` is about to make no call. -/
@[simp] theorem at_fail {e : ε} {h : List I.Event} {c : I.Call} :
    ¬ (fail e : Prog I ε α).At h c := at_done

/-- `halt` is about to make no call. -/
@[simp] theorem at_halt {n : Int} {h : List I.Event} {c : I.Call} :
    ¬ (halt n : Prog I ε α).At h c := at_done

/-- A check is about to make no call. -/
@[simp] theorem at_check {f : ε' → ε} {x : Except ε' α} {h : List I.Event} {c : I.Call} :
    ¬ (check f x : Prog I ε α).At h c := by
  cases x <;> simp [check]

/-- The calls that come to be made: the first one, then those that follow its answer. -/
@[simp] theorem at_call {c d : I.Call} {k : I.Answer c → Prog I ε α} {h : List I.Event} :
    (call c k).At h d ↔ (h = [] ∧ d = c) ∨ ∃ a h', h = ⟨c, a⟩ :: h' ∧ (k a).At h' d := by
  simp only [At, reaches_call]
  constructor
  · rintro ⟨k', ⟨rfl, heq⟩ | ⟨a, h', rfl, hk⟩⟩
    · cases heq; exact .inl ⟨rfl, rfl⟩
    · exact .inr ⟨a, h', rfl, k', hk⟩
  · rintro (⟨rfl, rfl⟩ | ⟨a, h', rfl, k', hk⟩)
    · exact ⟨k, .inl ⟨rfl, rfl⟩⟩
    · exact ⟨k', .inr ⟨a, h', rfl, hk⟩⟩

/-- A single call comes to be made at once. -/
@[simp] theorem at_sys {c d : I.Call} {h : List I.Event} :
    (sys c : Prog I ε _).At h d ↔ h = [] ∧ d = c := by
  simp [sys]

/-- A call of `p >>= f` is one of `p`, or one of `f` after a finished run of `p`. -/
@[simp] theorem at_bind {p : Prog I ε α} {f : α → Prog I ε β} {h : List I.Event} {c : I.Call} :
    (p >>= f).At h c ↔
      p.At h c ∨ ∃ a h₁ h₂, p.Runs h₁ (.ok a) ∧ (f a).At h₂ c ∧ h = h₁ ++ h₂ := by
  simp only [At, reaches_bind]
  -- The case of `p` splits: only a `p` that is done with a value can have `f` call
  constructor
  · rintro ⟨k, ⟨p', hp', heq⟩ | ⟨a, h₁, h₂, hr, hk, rfl⟩⟩
    · cases p' with
      | done r =>
        cases r with
        | ok a => exact .inr ⟨a, h, [], hp', ⟨k, by rw [heq]; exact .refl _⟩, by simp⟩
        | err e => cases heq
        | halt n => cases heq
      | call d k' => cases heq; exact .inl ⟨k', hp'⟩
    · exact .inr ⟨a, h₁, h₂, hr, ⟨k, hk⟩, rfl⟩
  · rintro (⟨k, hk⟩ | ⟨a, h₁, h₂, hr, ⟨k, hk⟩, rfl⟩)
    · exact ⟨_, .inl ⟨_, hk, rfl⟩⟩
    · exact ⟨k, .inr ⟨a, h₁, h₂, hr, hk, rfl⟩⟩

/-- A conditional step makes calls only where it is taken. -/
@[simp] theorem at_when {P : Prop} [Decidable P] {p : Prog I ε PUnit} {h : List I.Event}
    {c : I.Call} : (when P p).At h c ↔ P ∧ p.At h c := by
  unfold when
  split
  · next hP => simp [hP]
  · next hP => simp [hP]

/-- An optional step makes calls only where there is a value. -/
@[simp] theorem at_whenSome {o : Option β} {f : β → Prog I ε PUnit} {h : List I.Event}
    {c : I.Call} : (whenSome o f).At h c ↔ ∃ x, o = some x ∧ (f x).At h c := by
  cases o <;> simp [whenSome]

/-- Translating the errors changes no call. -/
@[simp] theorem at_mapErr {f : ε → ε'} {p : Prog I ε α} {h : List I.Event} {c : I.Call} :
    (p.mapErr f).At h c ↔ p.At h c := by
  induction p generalizing h with
  | done r => cases r <;> simp [mapErr]
  | call d k ih => simp only [mapErr, at_call, ih]

/-- Catching the errors changes no call. -/
@[simp] theorem at_attempt {p : Prog I ε α} {h : List I.Event} {c : I.Call} :
    (p.attempt : Prog I ε' _).At h c ↔ p.At h c := by
  induction p generalizing h with
  | done r => cases r <;> simp [attempt]
  | call d k ih => simp only [attempt, at_call, ih]

/-! ## Footprints

`p.Uses S`: whatever it is answered, `p` makes only calls in `S`. -/

/-- Every call that `p` can come to make is in `S`. -/
def Uses (S : I.Call → Prop) (p : Prog I ε α) : Prop := ∀ h c, p.At h c → S c

namespace Uses

variable {S T : I.Call → Prop}

/-- A footprint may be widened. -/
theorem mono {p : Prog I ε α} (hp : p.Uses S) (hST : ∀ c, S c → T c) : p.Uses T :=
  fun h c hat => hST c (hp h c hat)

/-- A program that has ended has every footprint. -/
theorem done (r : Outcome ε α) : (Prog.done r : Prog I ε α).Uses S :=
  fun _ _ hat => absurd hat at_done

/-- `pure` has every footprint. -/
theorem pure (a : α) : (Pure.pure a : Prog I ε α).Uses S := done _

/-- `fail` has every footprint. -/
theorem fail (e : ε) : (Prog.fail e : Prog I ε α).Uses S := done _

/-- `halt` has every footprint. -/
theorem halt (n : Int) : (Prog.halt n : Prog I ε α).Uses S := done _

/-- A check has every footprint. -/
theorem check (f : ε' → ε) (x : Except ε' α) : (Prog.check f x : Prog I ε α).Uses S :=
  fun _ _ hat => absurd hat at_check

/-- A single call has the footprints that contain it. -/
theorem sys {c : I.Call} (hc : S c) : (Prog.sys c : Prog I ε _).Uses S := by
  intro h d hat
  obtain ⟨-, rfl⟩ := at_sys.1 hat
  exact hc

/-- What follows `p` may go by the result. -/
theorem bind_runs {p : Prog I ε α} {f : α → Prog I ε β} (hp : p.Uses S)
    (hf : ∀ h a, p.Runs h (.ok a) → (f a).Uses S) : (p >>= f).Uses S := by
  intro h c hat
  rcases at_bind.1 hat with hat | ⟨a, h₁, h₂, hr, hat, -⟩
  · exact hp h c hat
  · exact hf h₁ a hr h₂ c hat

/-- A sequence stays in the footprint of its two parts. -/
theorem bind {p : Prog I ε α} {f : α → Prog I ε β} (hp : p.Uses S) (hf : ∀ a, (f a).Uses S) :
    (p >>= f).Uses S := hp.bind_runs fun _ a _ => hf a

/-- Translating the errors keeps the footprint. -/
theorem mapErr {f : ε → ε'} {p : Prog I ε α} (hp : p.Uses S) : (p.mapErr f).Uses S :=
  fun h c hat => hp h c (at_mapErr.1 hat)

/-- Catching the errors keeps the footprint. -/
theorem attempt {p : Prog I ε α} (hp : p.Uses S) : (p.attempt : Prog I ε' _).Uses S :=
  fun h c hat => hp h c (at_attempt.1 hat)

/-- A conditional step has the footprint it has where it is taken. -/
theorem when {P : Prop} [Decidable P] {p : Prog I ε PUnit} (hp : P → p.Uses S) :
    (Prog.when P p).Uses S := by
  unfold Prog.when
  split
  · next hP => exact hp hP
  · exact pure _

/-- An optional step has the footprint it has on the value. -/
theorem whenSome {o : Option β} {f : β → Prog I ε PUnit} (hf : ∀ x, o = some x → (f x).Uses S) :
    (Prog.whenSome o f).Uses S := by
  cases o with
  | none => exact pure _
  | some x => exact hf x rfl

/-- A loop has the footprint of its turns. -/
theorem forM {l : List β} {f : β → Prog I ε PUnit} (hf : ∀ x ∈ l, (f x).Uses S) :
    (forM l f).Uses S := by
  induction l with
  | nil => exact pure _
  | cons x l ih =>
    rw [List.forM_cons]
    exact (hf x List.mem_cons_self).bind fun _ =>
      ih fun y hy => hf y (List.mem_cons_of_mem x hy)

/-- Every event of a history is a call of the footprint. -/
theorem mem {p q : Prog I ε α} {h : List I.Event} (hp : p.Uses S) (hr : p.Reaches h q)
    {e : I.Event} (he : e ∈ h) : S e.call := by
  obtain ⟨h₁, h₂, rfl⟩ := List.append_of_mem he
  exact hp h₁ e.call hr.at_of_split

end Uses

/-- A call outside the footprint of `p` is made by what follows `p`. -/
theorem at_bind_right {S : I.Call → Prop} {p : Prog I ε α} {f : α → Prog I ε β}
    {h : List I.Event} {c : I.Call} (hp : p.Uses S) (hc : ¬ S c) (hat : (p >>= f).At h c) :
    ∃ a h₁ h₂, p.Runs h₁ (.ok a) ∧ (f a).At h₂ c ∧ h = h₁ ++ h₂ := by
  rcases at_bind.1 hat with hat | hat
  · exact absurd (hp h c hat) hc
  · exact hat

/-- A call outside the footprint of what follows `p` is made by `p`. -/
theorem at_bind_left {S : I.Call → Prop} {p : Prog I ε α} {f : α → Prog I ε β}
    {h : List I.Event} {c : I.Call} (hf : ∀ a, (f a).Uses S) (hc : ¬ S c)
    (hat : (p >>= f).At h c) : p.At h c := by
  rcases at_bind.1 hat with hat | ⟨a, h₁, h₂, -, hat, -⟩
  · exact hat
  · exact absurd (hf a h₂ c hat) hc

/-! ## What success takes

`p.Emits S`: a run of `p` that ends well consists of events in `S`. -/

/-- Every event of a run of `p` that ends well is in `S`. -/
def Emits (S : I.Event → Prop) (p : Prog I ε α) : Prop :=
  ∀ h a, p.Runs h (.ok a) → ∀ e ∈ h, S e

namespace Emits

variable {S : I.Event → Prop}

/-- `pure` has no event. -/
theorem pure (a : α) : (Pure.pure a : Prog I ε α).Emits S := by
  intro h b hr e he
  rw [(runs_pure.1 hr).1] at he
  cases he

/-- `fail` never ends well. -/
theorem fail (e : ε) : (Prog.fail e : Prog I ε α).Emits S := by
  intro h a hr
  cases (runs_fail.1 hr).2

/-- A check has no event. -/
theorem check (f : ε' → ε) (x : Except ε' α) : (Prog.check f x : Prog I ε α).Emits S := by
  cases x with
  | ok a => exact pure a
  | error e => exact fail (f e)

/-- A single call: whatever its answer, the event is in `S`. -/
theorem sys {c : I.Call} (hc : ∀ a, S ⟨c, a⟩) : (Prog.sys c : Prog I ε _).Emits S := by
  intro h a hr e he
  obtain ⟨b, rfl, -⟩ := runs_sys.1 hr
  cases List.mem_singleton.1 he
  exact hc b

/-- A sequence ends well only if both parts do. -/
theorem bind {p : Prog I ε α} {f : α → Prog I ε β} (hp : p.Emits S) (hf : ∀ a, (f a).Emits S) :
    (p >>= f).Emits S := by
  intro h b hr e he
  obtain ⟨a, h₁, h₂, hr₁, hr₂, rfl⟩ := runs_bind_ok.1 hr
  rcases List.mem_append.1 he with he | he
  · exact hp h₁ a hr₁ e he
  · exact hf a h₂ b hr₂ e he

/-- A call that has to be answered so that what follows it can end well. -/
theorem sys_bind {c : I.Call} {k : I.Answer c → Prog I ε β}
    (hc : ∀ a h b, (k a).Runs h (.ok b) → S ⟨c, a⟩) (hk : ∀ a, (k a).Emits S) :
    (Prog.sys c >>= k).Emits S := by
  intro h b hr e he
  obtain ⟨a, h₁, h₂, hr₁, hr₂, rfl⟩ := runs_bind_ok.1 hr
  obtain ⟨a', rfl, heq⟩ := runs_sys.1 hr₁
  cases heq
  rcases List.mem_append.1 he with he | he
  · cases List.mem_singleton.1 he
    exact hc a h₂ b hr₂
  · exact hk a h₂ b hr₂ e he

/-- Translating the errors changes no run that ends well. -/
theorem mapErr {f : ε → ε'} {p : Prog I ε α} (hp : p.Emits S) : (p.mapErr f).Emits S :=
  fun h a hr => hp h a (runs_mapErr_ok.1 hr)

/-- A conditional step has the events it has where it is taken. -/
theorem when {P : Prop} [Decidable P] {p : Prog I ε PUnit} (hp : P → p.Emits S) :
    (Prog.when P p).Emits S := by
  unfold Prog.when
  split
  · next hP => exact hp hP
  · exact pure _

/-- An optional step has the events it has on the value. -/
theorem whenSome {o : Option β} {f : β → Prog I ε PUnit} (hf : ∀ x, (f x).Emits S) :
    (Prog.whenSome o f).Emits S := by
  cases o with
  | none => exact pure _
  | some x => exact hf x

/-- A loop has the events of its turns. -/
theorem forM {l : List β} {f : β → Prog I ε PUnit} (hf : ∀ x, (f x).Emits S) :
    (forM l f).Emits S := by
  induction l with
  | nil => exact pure _
  | cons x l ih =>
    rw [List.forM_cons]
    exact (hf x).bind fun _ => ih

end Emits

/-! ## Halting -/

/-- Whatever it is answered, the program does not halt the process. -/
def Returns (p : Prog I ε α) : Prop := ∀ h n, ¬ p.Runs h (.halt n)

namespace Returns

/-- A program that has ended with a value does not halt. -/
theorem done_ok (a : α) : (done (.ok a) : Prog I ε α).Returns :=
  fun _ _ hr => by cases (runs_done.1 hr).2

/-- `pure` does not halt. -/
theorem pure (a : α) : (Pure.pure a : Prog I ε α).Returns := done_ok a

/-- `fail` does not halt. -/
theorem fail (e : ε) : (Prog.fail e : Prog I ε α).Returns :=
  fun _ _ hr => by cases (runs_done.1 hr).2

/-- A check does not halt. -/
theorem check (f : ε' → ε) (x : Except ε' α) : (Prog.check f x : Prog I ε α).Returns := by
  cases x with
  | ok a => exact pure a
  | error e => exact fail (f e)

/-- A call returns if what goes on from each answer does. -/
theorem call {c : I.Call} {k : I.Answer c → Prog I ε α} (hk : ∀ a, (k a).Returns) :
    (Prog.call c k).Returns := by
  intro h n hr
  obtain ⟨a, h', -, hr'⟩ := runs_call.1 hr
  exact hk a h' n hr'

/-- A single call returns. -/
theorem sys (c : I.Call) : (Prog.sys c : Prog I ε _).Returns := call fun a => pure a

/-- A sequence returns if both parts do. -/
theorem bind {p : Prog I ε α} {f : α → Prog I ε β} (hp : p.Returns) (hf : ∀ a, (f a).Returns) :
    (p >>= f).Returns := by
  intro h n hr
  rcases reaches_bind.1 hr with ⟨p', hp', heq⟩ | ⟨a, h₁, h₂, -, hr', -⟩
  · -- `p` is over: only a value lets `f` begin, and only a halt of `p` is one of the whole
    cases p' with
    | done r =>
      cases r with
      | ok a => exact hf a [] n (by rw [ok_bind] at heq; exact heq ▸ .refl _)
      | err e => cases heq
      | halt m => exact hp h m hp'
    | call c k => cases heq
  · exact hf a h₂ n hr'

/-- Translating the errors makes no halt. -/
theorem mapErr {f : ε → ε'} {p : Prog I ε α} (hp : p.Returns) : (p.mapErr f).Returns := by
  induction p with
  | done r =>
    cases r with
    | ok a => exact pure a
    | err e => exact fail (f e)
    | halt n => exact absurd (.refl _) (hp [] n)
  | call c k ih => exact call fun a => ih a fun h n hr => hp (⟨c, a⟩ :: h) n (.call hr)

/-- Catching the errors makes no halt. -/
theorem attempt {p : Prog I ε α} (hp : p.Returns) : (p.attempt : Prog I ε' _).Returns := by
  induction p with
  | done r =>
    cases r with
    | ok a => exact pure _
    | err e => exact pure _
    | halt n => exact absurd (.refl _) (hp [] n)
  | call c k ih => exact call fun a => ih a fun h n hr => hp (⟨c, a⟩ :: h) n (.call hr)

/-- A conditional step returns if it does where it is taken. -/
theorem when {P : Prop} [Decidable P] {p : Prog I ε PUnit} (hp : P → p.Returns) :
    (Prog.when P p).Returns := by
  unfold Prog.when
  split
  · next hP => exact hp hP
  · exact pure _

/-- An optional step returns if it does on the value. -/
theorem whenSome {o : Option β} {f : β → Prog I ε PUnit} (hf : ∀ x, o = some x → (f x).Returns) :
    (Prog.whenSome o f).Returns := by
  cases o with
  | none => exact pure _
  | some x => exact hf x rfl

/-- A loop returns if each turn does. -/
theorem forM {l : List β} {f : β → Prog I ε PUnit} (hf : ∀ x ∈ l, (f x).Returns) :
    (forM l f).Returns := by
  induction l with
  | nil => exact pure _
  | cons x l ih =>
    rw [List.forM_cons]
    exact (hf x List.mem_cons_self).bind fun _ => ih fun y hy => hf y (List.mem_cons_of_mem x hy)

end Returns

/-! ## Finished parts of a history -/

/-- Somewhere in the history `p` was run, and ended with the value `a`. -/
def RanIn (p : Prog I ε α) (h : List I.Event) (a : α) : Prop := ∃ h', h' <:+: h ∧ p.Runs h' (.ok a)

/-- A whole run is a part of its own history. -/
theorem Runs.ranIn {p : Prog I ε α} {h : List I.Event} {a : α} (hr : p.Runs h (.ok a)) :
    p.RanIn h a :=
  ⟨h, List.infix_rfl, hr⟩

namespace RanIn

variable {p : Prog I ε α} {h h' : List I.Event} {a : α}

/-- What was run in a part of a history was run in the history. -/
theorem mono (hp : p.RanIn h a) (hinf : h <:+: h') : p.RanIn h' a := by
  obtain ⟨h₁, h₁inf, hr⟩ := hp
  exact ⟨h₁, h₁inf.trans hinf, hr⟩

/-- More may follow. -/
theorem append_left (hp : p.RanIn h a) (h' : List I.Event) : p.RanIn (h ++ h') a :=
  hp.mono (List.prefix_append h h').isInfix

/-- More may have come before. -/
theorem append_right (hp : p.RanIn h a) (h' : List I.Event) : p.RanIn (h' ++ h) a :=
  hp.mono (List.suffix_append h' h).isInfix

/-- A sequence that was run has had both of its parts run. -/
theorem bind {f : α → Prog I ε β} {b : β} (hb : (p >>= f).RanIn h b) :
    ∃ a, p.RanIn h a ∧ (f a).RanIn h b := by
  obtain ⟨h₁, hinf, hr⟩ := hb
  obtain ⟨a, h₂, h₃, hp, hf, rfl⟩ := runs_bind_ok.1 hr
  exact ⟨a, (hp.ranIn.append_left h₃).mono hinf, (hf.ranIn.append_right h₂).mono hinf⟩

/-- A translated program that was run is the program that was run. -/
theorem mapErr {f : ε → ε'} (hm : (p.mapErr f).RanIn h a) : p.RanIn h a := by
  obtain ⟨h₁, hinf, hr⟩ := hm
  exact ⟨h₁, hinf, runs_mapErr_ok.1 hr⟩

/-- A conditional step that was taken was run. -/
theorem when {P : Prop} [Decidable P] {p : Prog I ε PUnit} (hw : (Prog.when P p).RanIn h ⟨⟩)
    (hP : P) : p.RanIn h ⟨⟩ := by
  rwa [Prog.when, if_pos hP] at hw

/-- An optional step with a value was run on it. -/
theorem whenSome {o : Option β} {f : β → Prog I ε PUnit} (hw : (Prog.whenSome o f).RanIn h ⟨⟩)
    {x : β} (hx : o = some x) : (f x).RanIn h ⟨⟩ := by
  subst hx
  exact hw

/-- A loop that ends well has run its body, well, on every element. -/
theorem forM {l : List β} {f : β → Prog I ε PUnit} (hl : (forM l f).RanIn h ⟨⟩) :
    ∀ x ∈ l, (f x).RanIn h ⟨⟩ := by
  induction l with
  | nil => exact fun _ hx => absurd hx List.not_mem_nil
  | cons y l ih =>
    rw [List.forM_cons] at hl
    obtain ⟨⟨⟩, hy, hl⟩ := hl.bind
    intro x hx
    rcases List.mem_cons.1 hx with rfl | hx
    · exact hy
    · exact ih hl x hx

/-- A call that was run is an event of the history. -/
theorem sys {c : I.Call} {a : I.Answer c} (hs : (Prog.sys c : Prog I ε _).RanIn h a) :
    ⟨c, a⟩ ∈ h := by
  obtain ⟨h₁, hinf, hr⟩ := hs
  obtain ⟨b, rfl, heq⟩ := runs_sys.1 hr
  cases heq
  exact hinf.subset List.mem_cons_self

/-- A check that was passed had a value. -/
theorem check {f : ε' → ε} {x : Except ε' α} (hc : (Prog.check f x : Prog I ε α).RanIn h a) :
    x = .ok a := by
  obtain ⟨h₁, -, hr⟩ := hc
  cases x with
  | ok b => cases (runs_done.1 hr).2; rfl
  | error e => exact nomatch (runs_done.1 hr).2

/-- `pure` ends with its value. -/
theorem pure {b : α} (hp : (Pure.pure b : Prog I ε α).RanIn h a) : b = a := by
  obtain ⟨h₁, -, hr⟩ := hp
  cases (runs_done.1 hr).2
  rfl

end RanIn

end Prog
