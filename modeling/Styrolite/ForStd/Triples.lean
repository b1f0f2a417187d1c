import Styrolite.ForStd.LocalRules

/-!
# What a program comes to under rules

`R.Ends t p A B`: a run of `p` that starts in the state `t` and obeys the rules
`R` leads to `A` if it ends with a value, and to `B` if it fails. There is one
rule for each way programs are put together; the rule for a loop goes by what has
been done of the list.

`record` adds to the state a record of the answers that no rule decides.

`Sure S p A` is the case without a state: where the answers are in `S` the program
`p` does not fail, and ends with a value in `A`.
-/

namespace LocalRules

open Prog

variable {I : Interface} {τ ε ε' α β : Type} {R : LocalRules I τ}

/-- What the run ends with is in `A`, or the run has failed in `B`. -/
def Post (A : α → τ → Prop) (B : τ → Prop) (t : τ) : Outcome ε α → Prop
  | .ok a => A a t
  | .err _ => B t
  | .halt _ => B t

/-- Every lawful run of `p` from `t` ends in `A`, or fails in `B`. -/
def Ends (R : LocalRules I τ) (t : τ) (p : Prog I ε α) (A : α → τ → Prop) (B : τ → Prop) : Prop :=
  ∀ h r, R.Lawful t h → p.Runs h r → Post A B (R.after t h) r

namespace Ends

variable {t : τ} {p : Prog I ε α} {A A' : α → τ → Prop} {B B' : τ → Prop}

/-- The postconditions may be weakened. -/
theorem mono (hp : R.Ends t p A B) (hA : ∀ a t', A a t' → A' a t') (hB : ∀ t', B t' → B' t') :
    R.Ends t p A' B' := by
  intro h r hl hr
  have hpost := hp h r hl hr
  cases r with
  | ok a => exact hA a _ hpost
  | err e => exact hB _ hpost
  | halt n => exact hB _ hpost

/-- A program that has ended satisfies what holds of its end. -/
theorem done {r : Outcome ε α} (hr : Post A B t r) : R.Ends t (.done r) A B := by
  intro h s _ hs
  obtain ⟨rfl, rfl⟩ := runs_done.1 hs
  exact hr

/-- `pure` satisfies what holds of its value. -/
theorem pure {a : α} (ha : A a t) : R.Ends t (Pure.pure a : Prog I ε α) A B := done ha

/-- `fail` satisfies what holds of errors. -/
theorem fail {e : ε} (hB : B t) : R.Ends t (Prog.fail e : Prog I ε α) A B := done hB

/-- A check satisfies what holds of its value and of its error. -/
theorem check {f : ε' → ε} {x : Except ε' α} (hok : ∀ a, x = .ok a → A a t)
    (herr : ∀ e, x = .error e → B t) : R.Ends t (Prog.check f x : Prog I ε α) A B := by
  cases x with
  | ok a => exact pure (hok a rfl)
  | error e => exact fail (herr e rfl)

/-- A call, by what holds after each answer that is allowed. -/
theorem call {c : I.Call} {k : I.Answer c → Prog I ε α}
    (hk : ∀ a, R.allows t c a → R.Ends (R.next t c a) (k a) A B) : R.Ends t (.call c k) A B := by
  intro h r hl hr
  obtain ⟨a, h', rfl, hr'⟩ := runs_call.1 hr
  obtain ⟨ha, hl'⟩ := lawful_cons.1 hl
  exact hk a ha h' r hl' hr'

/-- A single call, by what holds of each answer that is allowed. -/
theorem sys {c : I.Call} {A : I.Answer c → τ → Prop}
    (hc : ∀ a, R.allows t c a → A a (R.next t c a)) : R.Ends t (Prog.sys c : Prog I ε _) A B :=
  call fun a ha => pure (hc a ha)

/-- A sequence: what follows starts in the state that the first part has left. -/
theorem bind {f : α → Prog I ε β} {A : β → τ → Prop}
    (hp : R.Ends t p (fun a t' => R.Ends t' (f a) A B) B) : R.Ends t (p >>= f) A B := by
  induction p generalizing t with
  | done r =>
    have hpost := hp [] r (R.lawful_nil t) (.refl _)
    cases r with
    | ok a => exact hpost
    | err e => exact done hpost
    | halt n => exact done hpost
  | call c k ih =>
    refine call fun a ha => ih a fun h r hl hr => ?_
    exact hp (⟨c, a⟩ :: h) r (lawful_cons.2 ⟨ha, hl⟩) (.call hr)

/-- Translating the errors changes no end in the postconditions. -/
theorem mapErr {f : ε → ε'} (hp : R.Ends t p A B) : R.Ends t (p.mapErr f) A B := by
  induction p generalizing t with
  | done r =>
    have hpost := hp [] r (R.lawful_nil t) (.refl _)
    cases r with
    | ok a => exact done hpost
    | err e => exact done hpost
    | halt n => exact done hpost
  | call c k ih =>
    refine call fun a ha => ih a fun h r hl hr => ?_
    exact hp (⟨c, a⟩ :: h) r (lawful_cons.2 ⟨ha, hl⟩) (.call hr)

/-- A program that does not halt and whose failure is caught. -/
theorem attempt (hp : R.Ends t p A B) (hreturns : p.Returns) :
    R.Ends t (p.attempt : Prog I ε' _)
      (fun x t' => (∃ a, x = .ok a ∧ A a t') ∨ (∃ e, x = .error e) ∧ B t') fun _ => False := by
  induction p generalizing t with
  | done r =>
    have hpost := hp [] r (R.lawful_nil t) (.refl _)
    cases r with
    | ok a => exact pure (.inl ⟨a, rfl, hpost⟩)
    | err e => exact pure (.inr ⟨⟨e, rfl⟩, hpost⟩)
    | halt n => exact absurd (.refl _) (hreturns [] n)
  | call c k ih =>
    refine call fun a ha => ih a (fun h r hl hr => ?_) fun h n hr => hreturns _ n (.call hr)
    exact hp (⟨c, a⟩ :: h) r (lawful_cons.2 ⟨ha, hl⟩) (.call hr)

/-- A conditional step, taken or not. -/
theorem when {P : Prop} [Decidable P] {p : Prog I ε PUnit} {A : PUnit → τ → Prop}
    (hp : P → R.Ends t p A B) (hno : ¬ P → A ⟨⟩ t) : R.Ends t (Prog.when P p) A B := by
  unfold Prog.when
  split
  · next hP => exact hp hP
  · next hP => exact pure (hno hP)

/-- An optional step, with a value or without. -/
theorem whenSome {o : Option β} {f : β → Prog I ε PUnit} {A : PUnit → τ → Prop}
    (hf : ∀ x, o = some x → R.Ends t (f x) A B) (hno : o = none → A ⟨⟩ t) :
    R.Ends t (Prog.whenSome o f) A B := by
  cases o with
  | none => exact pure (hno rfl)
  | some x => exact hf x rfl

/-- Calls that the rules do not go by leave the state alone. -/
theorem of_uses {S : I.Call → Prop} (hp : p.Uses S) (hS : ∀ c, S c → ∀ a t, R.next t c a = t) :
    R.Ends t p (fun _ t' => t' = t) fun t' => t' = t := by
  intro h r _ hr
  have hsame : R.after t h = t := after_eq_of_forall fun e he => hS e.call (hp.mem hr he) e.answer
  cases r <;> exact hsame

/-- A loop, with an invariant of what has been done. -/
theorem forM {l : List β} {f : β → Prog I ε PUnit} {J : List β → τ → Prop}
    (hstep : ∀ l₁ x l₂ t', l = l₁ ++ x :: l₂ → J l₁ t' →
      R.Ends t' (f x) (fun _ => J (l₁ ++ [x])) B)
    (ht : J [] t) : R.Ends t (forM l f) (fun _ => J l) B := by
  -- Induction on the turns to come, from the state that the turns before have led to
  suffices hrest : ∀ l₂ l₁ t', l = l₁ ++ l₂ → J l₁ t' →
      R.Ends t' (ForM.forM l₂ f) (fun _ => J l) B from hrest l [] t rfl ht
  intro l₂
  induction l₂ with
  | nil =>
    intro l₁ t' heq hJ
    rw [List.append_nil] at heq
    exact pure (heq ▸ hJ)
  | cons x l₂ ih =>
    intro l₁ t' heq hJ
    rw [List.forM_cons]
    refine bind ((hstep l₁ x l₂ t' heq hJ).mono (fun _ t'' hJ' => ?_) fun _ hB => hB)
    exact ih (l₁ ++ [x]) t'' (by rw [heq, List.append_assoc]; rfl) hJ'

/-- A loop, with what is known of the runs that have come so far. -/
theorem forM_of_runs {l : List β} {f : β → Prog I ε PUnit} {J : τ → Prop}
    (hstep : ∀ l₁ x l₂ h, l = l₁ ++ x :: l₂ → R.Lawful t h → (ForM.forM l₁ f).Runs h (.ok ⟨⟩) →
      J (R.after t h) → R.Ends (R.after t h) (f x) (fun _ => J) B)
    (ht : J t) : R.Ends t (ForM.forM l f) (fun _ => J) B := by
  -- The invariant, with the history that has led to the state
  let Came (l₁ : List β) (t' : τ) : Prop :=
    J t' ∧ ∃ h, R.Lawful t h ∧ (ForM.forM l₁ f).Runs h (.ok ⟨⟩) ∧ R.after t h = t'
  have hcame : R.Ends t (ForM.forM l f) (fun _ => Came l) B := by
    refine forM (J := Came) ?_ ⟨ht, [], R.lawful_nil t, .refl _, rfl⟩
    rintro l₁ x l₂ _ heq ⟨hJ, h, hl, hr, rfl⟩ h' r hl' hr'
    have hpost := hstep l₁ x l₂ h heq hl hr hJ h' r hl' hr'
    cases r with
    | ok u =>
      exact ⟨hpost, h ++ h', lawful_append.2 ⟨hl, hl'⟩, hr.forM_concat hr', R.after_append t h h'⟩
    | err e => exact hpost
    | halt n => exact hpost
  exact hcame.mono (fun _ _ hend => hend.1) fun _ hB => hB

end Ends

/-! ## What a program comes to, both ways -/

section

variable {t : τ} {p : Prog I ε α} {A : α → τ → Prop} {B : τ → Prop}

/-- `pure`, in both directions. -/
theorem ends_pure {a : α} : R.Ends t (Pure.pure a : Prog I ε α) A B ↔ A a t :=
  ⟨fun hends => hends [] _ (R.lawful_nil t) (.refl _), .pure⟩

/-- `fail`, in both directions. -/
theorem ends_fail {e : ε} : R.Ends t (Prog.fail e : Prog I ε α) A B ↔ B t :=
  ⟨fun hends => hends [] _ (R.lawful_nil t) (.refl _), .fail⟩

/-- A call, in both directions. -/
theorem ends_call {c : I.Call} {k : I.Answer c → Prog I ε α} : R.Ends t (.call c k) A B ↔
    ∀ a, R.allows t c a → R.Ends (R.next t c a) (k a) A B := by
  refine ⟨fun hends a ha h r hl hr => ?_, .call⟩
  exact hends (⟨c, a⟩ :: h) r (lawful_cons.2 ⟨ha, hl⟩) (.call hr)

/-- A sequence, in both directions. -/
theorem ends_bind {f : α → Prog I ε β} {A : β → τ → Prop} : R.Ends t (p >>= f) A B ↔
    R.Ends t p (fun a t' => R.Ends t' (f a) A B) B := by
  refine ⟨fun hends => ?_, .bind⟩
  induction p generalizing t with
  | done r =>
    cases r with
    | ok a => exact .done hends
    | err e => exact .done (hends [] _ (R.lawful_nil t) (.refl _))
    | halt n => exact .done (hends [] _ (R.lawful_nil t) (.refl _))
  | call c k ih =>
    rw [call_bind, ends_call] at hends
    exact .call fun a ha => ih a (hends a ha)

end

/-! ## What a program can come to -/

/-- Some lawful run of `p` from `t` ends in `A`. -/
def May (R : LocalRules I τ) (t : τ) (p : Prog I ε α) (A : α → τ → Prop) : Prop :=
  ∃ h a, R.Lawful t h ∧ p.Runs h (.ok a) ∧ A a (R.after t h)

namespace May

variable {t : τ} {p : Prog I ε α} {A A' : α → τ → Prop}

/-- The postcondition may be weakened. -/
theorem mono (hp : R.May t p A) (hA : ∀ a t', A a t' → A' a t') : R.May t p A' := by
  obtain ⟨h, a, hl, hr, ha⟩ := hp
  exact ⟨h, a, hl, hr, hA a _ ha⟩

/-- `pure` may end as its value does. -/
theorem pure {a : α} (ha : A a t) : R.May t (Pure.pure a : Prog I ε α) A :=
  ⟨[], a, R.lawful_nil t, .refl _, ha⟩

/-- A call may be given the answer `a`. -/
theorem call {c : I.Call} {k : I.Answer c → Prog I ε α} (a : I.Answer c) (ha : R.allows t c a)
    (hk : R.May (R.next t c a) (k a) A) : R.May t (.call c k) A := by
  obtain ⟨h, b, hl, hr, hb⟩ := hk
  exact ⟨⟨c, a⟩ :: h, b, lawful_cons.2 ⟨ha, hl⟩, .call hr, hb⟩

/-- A single call may be given the answer `a`. -/
theorem sys {c : I.Call} {A : I.Answer c → τ → Prop} (a : I.Answer c) (ha : R.allows t c a)
    (hA : A a (R.next t c a)) : R.May t (Prog.sys c : Prog I ε _) A := call a ha (pure hA)

/-- A sequence may end as its second part may after its first. -/
theorem bind {f : α → Prog I ε β} {A : β → τ → Prop}
    (hp : R.May t p fun a t' => R.May t' (f a) A) : R.May t (p >>= f) A := by
  obtain ⟨h₁, a, hl₁, hr₁, h₂, b, hl₂, hr₂, hb⟩ := hp
  refine ⟨h₁ ++ h₂, b, lawful_append.2 ⟨hl₁, hl₂⟩, hr₁.bind hr₂, ?_⟩
  rw [after_append]
  exact hb

/-- A conditional step, taken or not. -/
theorem when {P : Prop} [Decidable P] {p : Prog I ε PUnit} {A : PUnit → τ → Prop}
    (hp : P → R.May t p A) (hno : ¬ P → A ⟨⟩ t) : R.May t (Prog.when P p) A := by
  unfold Prog.when
  split
  · next hP => exact hp hP
  · next hP => exact pure (hno hP)

/-- A loop of which every turn can end. -/
theorem forM {l : List β} {f : β → Prog I ε PUnit}
    (hstep : ∀ x ∈ l, ∀ t, R.May t (f x) fun _ _ => True) :
    R.May t (ForM.forM l f) fun _ _ => True := by
  induction l generalizing t with
  | nil => exact pure trivial
  | cons x l ih =>
    rw [List.forM_cons]
    refine bind ((hstep x List.mem_cons_self t).mono fun _ t' _ => ?_)
    exact ih fun y hy => hstep y (List.mem_cons_of_mem x hy)

end May

/-! ## The state before a call -/

/-- Wherever a lawful run of `p` from `t` is about to make the call `c`, it is in a state of
    `A`. -/
def Before (R : LocalRules I τ) (t : τ) (p : Prog I ε α) (c : I.Call) (A : τ → Prop) : Prop :=
  ∀ h, R.Lawful t h → p.At h c → A (R.after t h)

namespace Before

variable {t : τ} {p : Prog I ε α} {c : I.Call} {A : τ → Prop}

/-- A program that has ended is about to make no call. -/
theorem done {r : Outcome ε α} : R.Before t (Prog.done r : Prog I ε α) c A :=
  fun _ _ hat => absurd hat at_done

/-- Translating the errors changes no call. -/
theorem mapErr {f : ε → ε'} (hp : R.Before t p c A) : R.Before t (p.mapErr f) c A :=
  fun h hl hat => hp h hl (at_mapErr.1 hat)

/-- A call after which `c` is not made. -/
theorem last {d : I.Call} {k : I.Answer d → Prog I ε α} (hA : A t) (hk : ∀ a h, ¬ (k a).At h c) :
    R.Before t (.call d k) c A := by
  intro h _ hat
  rcases at_call.1 hat with ⟨rfl, -⟩ | ⟨a, h', -, hat'⟩
  · exact hA
  · exact absurd hat' (hk a h')

/-- The call is made by what follows `p`. -/
theorem past {S : I.Call → Prop} {f : α → Prog I ε β} (hp : p.Uses S) (hc : ¬ S c)
    {B : τ → Prop} (hends : R.Ends t p (fun a t' => R.Before t' (f a) c A) B) :
    R.Before t (p >>= f) c A := by
  intro h hl hat
  obtain ⟨a, h₁, h₂, hr, hat', rfl⟩ := at_bind_right hp hc hat
  obtain ⟨hl₁, hl₂⟩ := lawful_append.1 hl
  rw [after_append]
  exact hends h₁ _ hl₁ hr h₂ hl₂ hat'

end Before

/-! ## Recording answers -/

/-- The rules, with a record of what `f` finds in the answers. -/
def record (R : LocalRules I τ) (f : I.Event → Option β) : LocalRules I (τ × List β) where
  allows t c a := R.allows t.1 c a
  next t c a := (R.next t.1 c a, t.2 ++ (f ⟨c, a⟩).toList)

variable {f : I.Event → Option β} {t : τ} {l : List β} {h : List I.Event}

/-- The record is of the events of the history. -/
theorem after_record : (R.record f).after (t, l) h = (R.after t h, l ++ h.filterMap f) := by
  induction h generalizing t l with
  | nil => rw [after_nil, after_nil, List.filterMap_nil, List.append_nil]
  | cons e h ih =>
    rw [after_cons, after_cons, List.filterMap_cons]
    refine ih.trans ?_
    cases f e with
    | none => simp
    | some b => simp

/-- Recording restricts no history. -/
theorem lawful_record : (R.record f).Lawful (t, l) h ↔ R.Lawful t h := by
  induction h generalizing t l with
  | nil => exact ⟨fun _ => R.lawful_nil t, fun _ => (R.record f).lawful_nil _⟩
  | cons e h ih =>
    rw [lawful_cons, lawful_cons]
    exact and_congr Iff.rfl ih

/-! ## Programs that do not fail -/

/-- The answers in `S` are allowed, whatever went before. -/
def ofEvents (S : I.Event → Prop) : LocalRules I Unit where
  allows _ c a := S ⟨c, a⟩
  next _ _ _ := ()

/-- With answers in `S` the program ends with a value in `A`. -/
def Sure (S : I.Event → Prop) (p : Prog I ε α) (A : α → Prop) : Prop :=
  (ofEvents S).Ends () p (fun a _ => A a) fun _ => False

namespace Sure

variable {S : I.Event → Prop} {p : Prog I ε α} {A : α → Prop}

/-- `pure` is sure of its value. -/
theorem pure {a : α} (ha : A a) : Sure S (Pure.pure a : Prog I ε α) A := Ends.pure ha

/-- A check is sure of a value that is there. -/
theorem check {f : ε' → ε} {x : Except ε' α} (hx : ∃ a, x = .ok a ∧ A a) :
    Sure S (Prog.check f x : Prog I ε α) A := by
  obtain ⟨a, rfl, ha⟩ := hx
  exact pure ha

/-- A call is sure of what each good answer leads to. -/
theorem call {c : I.Call} {k : I.Answer c → Prog I ε α} (hk : ∀ a, S ⟨c, a⟩ → Sure S (k a) A) :
    Sure S (.call c k) A := Ends.call hk

/-- A sequence is sure of what its parts are sure of. -/
theorem bind {f : α → Prog I ε β} {A' : β → Prop} (hp : Sure S p A)
    (hf : ∀ a, A a → Sure S (f a) A') : Sure S (p >>= f) A' :=
  Ends.bind (Ends.mono hp (fun a _ ha => hf a ha) fun _ hno => hno)

/-- Translating the errors changes nothing that ends well. -/
theorem mapErr {f : ε → ε'} (hp : Sure S p A) : Sure S (p.mapErr f) A := Ends.mapErr hp

/-- A program whose failure is caught. -/
theorem attempt_returns (hp : p.Returns) : Sure S (p.attempt : Prog I ε' _) fun _ => True := by
  have hends : (ofEvents S).Ends () p (fun _ _ => True) fun _ => True := by
    intro h r _ _
    cases r <;> trivial
  exact Ends.mono (Ends.attempt hends hp) (fun _ _ _ => trivial) fun _ hno => hno

/-- A program that does not fail, where its failure would be caught. -/
theorem attempt (hp : Sure S p A) :
    Sure S (p.attempt : Prog I ε' _) fun x => ∃ a, x = .ok a ∧ A a := by
  induction p with
  | done r =>
    have hpost := hp [] r ((ofEvents S).lawful_nil ()) (.refl _)
    cases r with
    | ok a => exact pure ⟨a, rfl, hpost⟩
    | err e => exact hpost.elim
    | halt n => exact hpost.elim
  | call c k ih =>
    refine call fun a ha => ih a fun h r hl hr => ?_
    exact hp (⟨c, a⟩ :: h) r (lawful_cons.2 ⟨ha, hl⟩) (.call hr)

/-- A conditional step, taken or not. -/
theorem when {P : Prop} [Decidable P] {p : Prog I ε PUnit} {A : PUnit → Prop}
    (hp : P → Sure S p A) (hno : ¬ P → A ⟨⟩) : Sure S (Prog.when P p) A := Ends.when hp hno

/-- An optional step, with a value or without. -/
theorem whenSome {o : Option β} {f : β → Prog I ε PUnit} {A : PUnit → Prop}
    (hf : ∀ x, o = some x → Sure S (f x) A) (hno : o = none → A ⟨⟩) :
    Sure S (Prog.whenSome o f) A := Ends.whenSome hf hno

/-- A loop of turns that end well ends well. -/
theorem forM {l : List β} {f : β → Prog I ε PUnit}
    (hf : ∀ x ∈ l, Sure S (f x) fun _ => True) : Sure S (ForM.forM l f) fun _ => True := by
  refine Ends.forM (J := fun _ _ => True) (fun l₁ x l₂ _ heq _ => ?_) trivial
  exact hf x (heq ▸ List.mem_append_right l₁ List.mem_cons_self)

/-- A run with such answers ends with a value. -/
theorem ends {h : List I.Event} {r : Outcome ε α} (hp : Sure S p A) (hS : ∀ e ∈ h, S e)
    (hr : p.Runs h r) : ∃ a, r = .ok a ∧ A a := by
  have hpost := hp h r (fun h₁ e h₂ heq => hS e (heq ▸ by simp)) hr
  cases r with
  | ok a => exact ⟨a, rfl, hpost⟩
  | err e => exact hpost.elim
  | halt n => exact hpost.elim

/-- The answers to calls that the program does not make do not matter. -/
theorem of_uses {S' : I.Event → Prop} {Q : I.Call → Prop} (hp : Sure S p A) (hQ : p.Uses Q)
    (hS : ∀ e, Q e.call → S' e → S e) : Sure S' p A := by
  induction p with
  | done r =>
    intro h r' _ hr
    obtain ⟨rfl, -⟩ := runs_done.1 hr
    exact hp [] r' ((ofEvents S).lawful_nil ()) hr
  | call c k ih =>
    refine call fun a ha => ih a (fun h r hl hr => ?_) fun h d hat => ?_
    · exact hp (⟨c, a⟩ :: h) r (lawful_cons.2 ⟨hS _ (hQ [] c (at_call.2 (.inl ⟨rfl, rfl⟩))) ha, hl⟩)
        (.call hr)
    · exact hQ (⟨c, a⟩ :: h) d (at_call.2 (.inr ⟨a, h, rfl, hat⟩))

/-- A run of what begins with such a program comes to the end of it. -/
theorem runs_bind {f : α → Prog I ε β} {h : List I.Event} {r : Outcome ε β} (hp : Sure S p A)
    (hS : ∀ e ∈ h, S e) (hr : (p >>= f).Runs h r) :
    ∃ a h₁ h₂, h = h₁ ++ h₂ ∧ p.Runs h₁ (.ok a) ∧ A a ∧ (f a).Runs h₂ r := by
  -- Induction on `p`: what holds of all its runs holds of what is left after a call
  induction p generalizing h with
  | done s =>
    have hpost := hp [] s ((ofEvents S).lawful_nil ()) (.refl _)
    cases s with
    | ok a => exact ⟨a, [], h, rfl, .refl _, hpost, hr⟩
    | err e => exact hpost.elim
    | halt n => exact hpost.elim
  | call c k ih =>
    obtain ⟨a, h', rfl, hr'⟩ := runs_call.1 hr
    obtain ⟨ha, hS'⟩ := List.forall_mem_cons.1 hS
    have hk : Sure S (k a) A := fun h'' s hl hs =>
      hp (⟨c, a⟩ :: h'') s (lawful_cons.2 ⟨ha, hl⟩) (.call hs)
    obtain ⟨b, h₁, h₂, rfl, hr₁, hb, hr₂⟩ := ih a hk hS' hr'
    exact ⟨b, ⟨c, a⟩ :: h₁, h₂, rfl, .call hr₁, hb, hr₂⟩

end Sure

end LocalRules
