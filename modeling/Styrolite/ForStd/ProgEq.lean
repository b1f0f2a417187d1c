import Styrolite.ForStd.Answers

/-!
# Programs with the same runs

Where every call has an answer, a program is determined by its runs
(`eq_of_runs`), and what follows a part that can end well is determined by the
whole (`bind_cancel`). So two programs that differ in one place only have the
same runs just if that place is never reached, or makes no difference.
-/

namespace Prog

variable {I : Interface} {ε ε' α β : Type}

/-- Under some answers the program ends with the value. -/
def CanEnd (p : Prog I ε α) (a : α) : Prop := ∃ h, p.Runs h (.ok a)

namespace CanEnd

variable {p : Prog I ε α} {a : α}

/-- Returning a value can end in it. -/
theorem pure (a : α) : (Pure.pure a : Prog I ε α).CanEnd a := ⟨[], .refl _⟩

/-- A call can end in any answer. -/
theorem sys {c : I.Call} (a : I.Answer c) : (Prog.sys c : Prog I ε _).CanEnd a :=
  ⟨[⟨c, a⟩], .call (.refl _)⟩

/-- A check can end in the value it lets pass. -/
theorem check {f : ε' → ε} {x : Except ε' α} (hx : x = .ok a) :
    (Prog.check f x : Prog I ε α).CanEnd a := by
  subst hx
  exact pure a

/-- One program after another can end where the second can. -/
theorem bind {f : α → Prog I ε β} {b : β} (hp : p.CanEnd a) (hf : (f a).CanEnd b) :
    (p >>= f).CanEnd b := by
  obtain ⟨h₁, hr₁⟩ := hp
  obtain ⟨h₂, hr₂⟩ := hf
  exact ⟨h₁ ++ h₂, runs_bind_ok.2 ⟨a, h₁, h₂, hr₁, hr₂, rfl⟩⟩

/-- Renaming errors changes no end that is good. -/
theorem mapErr {f : ε → ε'} (hp : p.CanEnd a) : (p.mapErr f).CanEnd a := by
  obtain ⟨h, hr⟩ := hp
  exact ⟨h, runs_mapErr_ok.2 hr⟩

/-- A program behind a condition has to be able to end only under it. -/
theorem when {P : Prop} [Decidable P] {p : Prog I ε PUnit} (hp : P → p.CanEnd ⟨⟩) :
    (Prog.when P p).CanEnd ⟨⟩ := by
  unfold Prog.when
  split
  · next hP => exact hp hP
  · exact pure _

/-- A program on an optional value has to be able to end only if there is one. -/
theorem whenSome {o : Option β} {f : β → Prog I ε PUnit} (hf : ∀ x, o = some x → (f x).CanEnd ⟨⟩) :
    (Prog.whenSome o f).CanEnd ⟨⟩ := by
  cases o with
  | none => exact pure _
  | some x => exact hf x rfl

end CanEnd

/-- The call a program begins with, if it makes any. -/
def head : Prog I ε α → Option I.Call
  | done _ => none
  | call c _ => some c

/-- The first call of two programs is that of the first, if it has one. -/
theorem head_bind {p : Prog I ε α} {c : I.Call} (hp : p.head = some c) (f : α → Prog I ε β) :
    (p >>= f).head = some c := by
  cases p with
  | done r => cases hp
  | call d k => exact hp

/-- Renaming errors changes no call. -/
theorem head_mapErr (f : ε → ε') (p : Prog I ε α) : (p.mapErr f).head = p.head := by
  cases p with
  | done r => cases r <;> rfl
  | call d k => rfl

/-- A translation of errors applies to each part of a program. -/
theorem mapErr_bind (g : ε → ε') (p : Prog I ε α) (f : α → Prog I ε β) :
    (p >>= f).mapErr g = p.mapErr g >>= fun a => (f a).mapErr g := by
  induction p with
  | done r => cases r <;> rfl
  | call c k ih =>
    show call c (fun a => (k a >>= f).mapErr g) = call c fun a => (k a).mapErr g >>= fun b =>
      (f b).mapErr g
    congr 1
    funext a
    exact ih a

/-- Programs that begin alike are the same if they go on alike wherever they come to. -/
theorem bind_congr_of_runs {p : Prog I ε α} {f g : α → Prog I ε β}
    (hfg : ∀ h a, p.Runs h (.ok a) → f a = g a) : p >>= f = p >>= g := by
  induction p with
  | done r =>
    cases r with
    | ok a => exact hfg [] a (.refl _)
    | err e => rfl
    | halt n => rfl
  | call c k ih =>
    show call c (fun a => k a >>= f) = call c fun a => k a >>= g
    congr 1
    funext a
    exact ih a fun h b hr => hfg (⟨c, a⟩ :: h) b (.call hr)

/-- What follows a part that can end well is determined by the whole. -/
theorem bind_cancel {p : Prog I ε α} {f g : α → Prog I ε β} {a : α}
    (heq : p >>= f = p >>= g) (hp : p.CanEnd a) : f a = g a := by
  obtain ⟨h, hr⟩ := hp
  have hpast : ∀ f : α → Prog I ε β, (p >>= f).Reaches h (f a) := fun f =>
    reaches_bind.2 (.inr ⟨a, h, [], hr, .refl _, (List.append_nil h).symm⟩)
  have hg := hpast g
  rw [← heq] at hg
  exact (hpast f).unique hg

/-- A program has a run, if each call has an answer. -/
theorem exists_runs (hanswer : ∀ c, Nonempty (I.Answer c)) (p : Prog I ε α) :
    ∃ h r, p.Runs h r :=
  ⟨_, _, p.eval_runs (fun _ c => Classical.choice (hanswer c)) []⟩

/-- The runs of a call after its answer are those of what follows it. -/
theorem runs_call_cons {c : I.Call} {k : I.Answer c → Prog I ε α} {a : I.Answer c}
    {h : List I.Event} {r : Outcome ε α} :
    (call c k).Runs (⟨c, a⟩ :: h) r ↔ (k a).Runs h r := by
  constructor
  · intro hr
    cases hr with
    | call hk => exact hk
  · exact .call

/-- A program is determined by its runs. -/
theorem eq_of_runs (hanswer : ∀ c, Nonempty (I.Answer c)) {p q : Prog I ε α}
    (hruns : ∀ h r, p.Runs h r ↔ q.Runs h r) : p = q := by
  induction p generalizing q with
  | done r =>
    have hq : q.Runs [] r := (hruns [] r).1 (.refl _)
    cases q with
    | done s => rw [(runs_done.1 hq).2]
    | call c k => cases hq
  | call c k ih =>
    cases q with
    | done s => exact nomatch (hruns [] s).2 (.refl _)
    | call c' k' =>
      -- some run shows that the first calls are the same
      obtain ⟨h, r, hr⟩ := exists_runs hanswer (call c k)
      obtain ⟨a, h', rfl, -⟩ := runs_call.1 hr
      obtain ⟨a', h'', heq, -⟩ := runs_call.1 ((hruns _ r).1 hr)
      cases heq
      congr 1
      funext b
      refine ih b fun h r => ?_
      rw [← runs_call_cons, hruns, runs_call_cons]

end Prog
