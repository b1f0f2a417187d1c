import Mathlib.Data.List.Induction
import Mathlib.Data.List.Nodup
import Styrolite.ForStd.Process

/-!
# Runs that follow a script

A protocol in which every step waits for the one before it has one order of
steps, its script. What has happened in a configuration is then an initial segment
of the script, whichever process is to move. It is enough to show that it is one
as a set (`Script.Initial`): the order of events in the trace follows, since every
earlier trace was initial too (`Kernel.Reachable.follows_script`). The part of a
single process in the script is read off its program (`Prog.Scripted`).
-/

namespace Script

variable {τ : Type*} {S l : List τ} {a : τ}

/-- No entry of the script is there twice, and none without the one before it. -/
structure Initial (S l : List τ) : Prop where
  nodup : l.Nodup
  subset : l ⊆ S
  closed : ∀ {S₁ b a S₂}, S = S₁ ++ b :: a :: S₂ → a ∈ l → b ∈ l

theorem Initial.before (h : Initial S l) {S₁ S₂ : List τ} (hS : S = S₁ ++ a :: S₂) (ha : a ∈ l) :
    S₁ ⊆ l := by
  induction S₁ using List.reverseRecOn generalizing a S₂ with
  | nil => exact List.nil_subset l
  | append_singleton S₁ b ih =>
    have hb : b ∈ l := h.closed (by simpa using hS) ha
    exact List.append_subset.2 ⟨ih (by simpa using hS) hb, by simpa using hb⟩

/-- One more entry can only be the next one. -/
theorem Initial.concat (hS : S.Nodup) (hl : l <+: S) (h : Initial S (l ++ [a])) :
    l ++ [a] <+: S := by
  obtain ⟨r, rfl⟩ := hl
  have ha : a ∈ l ++ [a] := List.mem_append_right l List.mem_cons_self
  have hnew : a ∉ l := fun hin =>
    (List.nodup_append.1 h.nodup).2.2 a hin a (List.mem_singleton_self a) rfl
  have hr : a ∈ r := (List.mem_append.1 (h.subset ha)).resolve_left hnew
  obtain ⟨r₁, r₂, rfl⟩ := List.append_of_mem hr
  have hbefore : l ++ r₁ ⊆ l ++ [a] := h.before (List.append_assoc l r₁ (a :: r₂)).symm ha
  -- an entry before `a` would be there already, or be `a` itself
  cases r₁ with
  | nil => exact ⟨r₂, by simp⟩
  | cons b r₁ =>
    have hb : b ∈ l ++ [a] := hbefore (List.mem_append_right l List.mem_cons_self)
    obtain ⟨-, hnodup, hdisj⟩ := List.nodup_append.1 hS
    rcases List.mem_append.1 hb with hb | hb
    · exact absurd rfl (hdisj b hb b List.mem_cons_self)
    · rw [List.mem_singleton.1 hb] at hnodup
      exact absurd (List.mem_append_right r₁ List.mem_cons_self) (List.nodup_cons.1 hnodup).1

end Script

namespace Kernel

variable {I : Interface} {Pid σ τ ε α : Type} [DecidableEq Pid] {K : Kernel I Pid σ} {root : Pid}
  {p : Prog I ε α} {s : σ} {S : List τ} {f : Pid × I.Event → Option τ}

/-- If what has happened is always initial in the script, it has happened in the order of that. -/
theorem Reachable.follows_script (hS : S.Nodup)
    (hinit : ∀ cfg : Config I Pid σ ε α, K.Reachable root p s cfg →
      Script.Initial S (cfg.trace.filterMap f))
    (hspawn : ∀ c a q b, K.spawn c a = some (q, b) → f (q, ⟨c, b⟩) = none)
    {cfg : Config I Pid σ ε α} (hr : K.Reachable root p s cfg) : cfg.trace.filterMap f <+: S := by
  induction hr with
  | refl => exact List.nil_prefix
  | @tail cfg cfg' hr hs ih =>
    have hnext : ∀ x : Pid × I.Event, cfg'.trace.filterMap f = (cfg.trace ++ [x]).filterMap f →
        cfg'.trace.filterMap f <+: S := by
      intro x heq
      have hinit' := hinit cfg' (hr.tail hs)
      rw [heq, List.filterMap_append] at hinit' ⊢
      cases hx : f x with
      | none => simpa [hx] using ih
      | some t =>
        simp only [List.filterMap_cons, hx, List.filterMap_nil] at hinit' ⊢
        exact hinit'.concat hS ih
    cases hs with
    | @call pid h c k a hproc hallows hno => exact hnext (pid, ⟨c, a⟩) rfl
    | @spawn pid q h c k a b hproc hallows hq hfresh =>
      refine hnext (pid, ⟨c, a⟩) ?_
      simp [List.filterMap_append, List.filterMap_cons, hspawn c a q b hq]

end Kernel

namespace Prog

variable {I : Interface} {ε ε' α β γ τ : Type} {f : I.Event → Option τ} {S S' : List τ}

/-- What `f` reads off the calls of the program comes in the order of `S`, and is all of it if
    the program ends with a value. -/
structure Scripted (f : I.Event → Option τ) (S : List τ) (p : Prog I ε α) : Prop where
  reaches : ∀ {h q}, p.Reaches h q → h.filterMap f <+: S
  runs : ∀ {h a}, p.Runs h (.ok a) → h.filterMap f = S

namespace Scripted

theorem of_uses {p : Prog I ε α} {Q : I.Call → Prop} (hp : p.Uses Q)
    (hf : ∀ c a, Q c → f ⟨c, a⟩ = none) : p.Scripted f [] := by
  have hnone : ∀ {h q}, p.Reaches h q → h.filterMap f = [] := fun hr =>
    List.filterMap_eq_nil_iff.2 fun e he => hf e.call e.answer (hp.mem hr he)
  exact ⟨fun hr => hnone hr ▸ List.nil_prefix, hnone⟩

theorem pure (a : α) : (Pure.pure a : Prog I ε α).Scripted f [] :=
  of_uses (Q := fun _ => False) (.pure a) fun _ _ hc => hc.elim

theorem bind {p : Prog I ε α} {g : α → Prog I ε β} (hp : p.Scripted f S)
    (hg : ∀ a, (g a).Scripted f S') : (p >>= g).Scripted f (S ++ S') := by
  constructor
  · intro h q hr
    rcases reaches_bind.1 hr with ⟨p', hp', rfl⟩ | ⟨a, h₁, h₂, hp', hg', rfl⟩
    · exact (hp.reaches hp').trans (List.prefix_append S S')
    · rw [List.filterMap_append, hp.runs hp']
      exact (List.prefix_append_right_inj S).2 ((hg a).reaches hg')
  · intro h b hr
    obtain ⟨a, h₁, h₂, hp', hg', rfl⟩ := runs_bind_ok.1 hr
    rw [List.filterMap_append, hp.runs hp', (hg a).runs hg']

/-- A call that counts if it is answered well, and ends the program if not. -/
theorem checked_bind {c : I.Call} {e : ε' → ε} {g : I.Answer c → Except ε' β}
    {k : β → Prog I ε γ} {t : τ} (hok : ∀ a x, g a = .ok x → f ⟨c, a⟩ = some t)
    (herr : ∀ a x, g a = .error x → f ⟨c, a⟩ = none) (hk : ∀ x, (k x).Scripted f S) :
    (sys c >>= fun a => check e (g a) >>= k).Scripted f (t :: S) := by
  constructor
  · intro h q hr
    rcases reaches_call.1 hr with ⟨rfl, -⟩ | ⟨a, h', rfl, hr'⟩
    · exact List.nil_prefix
    · change (check e (g a) >>= k).Reaches h' q at hr'
      cases hg : g a with
      | ok x =>
        rw [hg] at hr'
        rw [List.filterMap_cons, hok a x hg]
        exact List.cons_prefix_cons.2 ⟨rfl, (hk x).reaches hr'⟩
      | error x =>
        rw [hg] at hr'
        obtain ⟨rfl, -⟩ := reaches_done.1 hr'
        rw [List.filterMap_cons, herr a x hg]
        exact List.nil_prefix
  · intro h b hr
    obtain ⟨a, h', rfl, hr'⟩ := runs_call.1 hr
    change (check e (g a) >>= k).Runs h' (.ok b) at hr'
    cases hg : g a with
    | ok x =>
      rw [hg] at hr'
      rw [List.filterMap_cons, hok a x hg, (hk x).runs hr']
    | error x =>
      rw [hg] at hr'
      cases (runs_done.1 hr').2

end Scripted

end Prog
