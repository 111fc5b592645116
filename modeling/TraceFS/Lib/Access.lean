import Mathlib.Logic.Basic

/-!
Programs made of atomic accesses, under interference.

A program performs one operation after the other and continues with the response;
its environment may move before each of them and at the end. `Safe` says that
nothing the environment does breaks a condition at the accesses and one on the
result. Triples with assertions the environment keeps compose.
-/
namespace Access

variable {Op : Type} {Res : Op → Type} {σ α β : Type}

/-- A program of accesses `op`, each continued with its response. -/
inductive Prog (Op : Type) (Res : Op → Type) (α : Type) where
  | ret (a : α)
  | access (op : Op) (k : Res op → Prog Op Res α)

namespace Prog

def bind : Prog Op Res α → (α → Prog Op Res β) → Prog Op Res β
  | .ret a, f => f a
  | .access op k, f => .access op fun r => (k r).bind f

instance : Monad (Prog Op Res) where
  pure := .ret
  bind := bind

def perform (op : Op) : Prog Op Res (Res op) := .access op .ret

def exec (perform : (op : Op) → σ → Res op × σ) : Prog Op Res α → σ → α × σ
  | .ret a, s => (a, s)
  | .access op k, s => (k (perform op s).1).exec perform (perform op s).2

@[simp] theorem exec_pure (perform : (op : Op) → σ → Res op × σ) (a : α) (s : σ) :
    (pure a : Prog Op Res α).exec perform s = (a, s) := rfl

@[simp] theorem exec_perform (perform : (op : Op) → σ → Res op × σ) (op : Op) (s : σ) :
    (Prog.perform op : Prog Op Res (Res op)).exec perform s = perform op s := rfl

@[simp] theorem exec_bind (perform : (op : Op) → σ → Res op × σ) (p : Prog Op Res α)
    (f : α → Prog Op Res β) (s : σ) :
    (p >>= f).exec perform s = (f (p.exec perform s).1).exec perform (p.exec perform s).2 := by
  change (p.bind f).exec perform s = _
  induction p generalizing s with
  | ret a => rfl
  | access op k ih => exact ih _ _

/-- Every result the program can end with satisfies `P`. -/
def Returns (P : α → Prop) : Prog Op Res α → Prop
  | .ret a => P a
  | .access _ k => ∀ r, (k r).Returns P

theorem returns_bind {P : β → Prop} {p : Prog Op Res α} {f : α → Prog Op Res β}
    (h : ∀ a, (f a).Returns P) : (p >>= f).Returns P := by
  change (p.bind f).Returns P
  induction p with
  | ret a => exact h a
  | access op k ih => exact ih

/-- Every access the program can make satisfies `K`. -/
def Uses (K : Op → Prop) : Prog Op Res α → Prop
  | .ret _ => True
  | .access op k => K op ∧ ∀ r, (k r).Uses K

theorem uses_pure {K : Op → Prop} (a : α) : (pure a : Prog Op Res α).Uses K := trivial

theorem uses_perform {K : Op → Prop} {op : Op} (h : K op) :
    (perform op : Prog Op Res (Res op)).Uses K :=
  ⟨h, fun _ => trivial⟩

theorem uses_bind {K : Op → Prop} {p : Prog Op Res α} {f : α → Prog Op Res β}
    (hp : p.Uses K) (hf : ∀ a, (f a).Uses K) : (p >>= f).Uses K := by
  change (p.bind f).Uses K
  induction p with
  | ret a => exact hf a
  | access op k ih => exact ⟨hp.1, fun r => ih r (hp.2 r)⟩

/-- What no access of the program changes is the same afterwards. -/
theorem exec_of_uses {τ : Type} {K : Op → Prop} {f : σ → τ} {perform : (op : Op) → σ → Res op × σ}
    (keep : ∀ op s, K op → f (perform op s).2 = f s) {p : Prog Op Res α} (h : p.Uses K) (s : σ) :
    f (p.exec perform s).2 = f s := by
  induction p generalizing s with
  | ret a => rfl
  | access op k ih => exact (ih _ (h.2 _) _).trans (keep op s h.1)

/-- Any behaviour at all: a response may depend on every operation so far, and the
operations are all there is to know afterwards. -/
def oracle (answer : List Op → (op : Op) → Res op) (op : Op) (history : List Op) :
    Res op × List Op :=
  (answer history op, history ++ [op])

end Prog

/-- What the operations do, what the environment may do between them, and the
condition expected whenever an access is made. -/
structure Setting (Op : Type) (Res : Op → Type) (σ : Type) where
  perform : (op : Op) → σ → Res op × σ
  env : σ → σ → Prop
  atAccess : σ → Prop
  refl : ∀ s, env s s
  trans : ∀ s t u, env s t → env t u → env s u

variable {c : Setting Op Res σ}

/-- Whatever the environment does, `atAccess` holds at each access and `Q` at the
end. -/
def Safe (c : Setting Op Res σ) (Q : α → σ → Prop) : Prog Op Res α → σ → Prop
  | .ret a, s => ∀ t, c.env s t → Q a t
  | .access op k, s => ∀ t, c.env s t →
      c.atAccess t ∧ Safe c Q (k (c.perform op t).1) (c.perform op t).2

theorem Safe.env {Q : α → σ → Prop} {p : Prog Op Res α} {s t : σ} (h : Safe c Q p s)
    (move : c.env s t) : Safe c Q p t := by
  cases p with
  | ret a => exact fun u hu => h u (c.trans s t u move hu)
  | access op k => exact fun u hu => h u (c.trans s t u move hu)

theorem Safe.result {Q : α → σ → Prop} {a : α} {s : σ} (h : Safe c Q (.ret a) s) : Q a s :=
  h s (c.refl s)

theorem Safe.atAccess {Q : α → σ → Prop} {op : Op} {k : Res op → Prog Op Res α} {s : σ}
    (h : Safe c Q (.access op k) s) : c.atAccess s :=
  (h s (c.refl s)).1

theorem Safe.next {Q : α → σ → Prop} {op : Op} {k : Res op → Prog Op Res α} {s : σ}
    (h : Safe c Q (.access op k) s) : Safe c Q (k (c.perform op s).1) (c.perform op s).2 :=
  (h s (c.refl s)).2

/-- A condition that holds at the accesses and at the end holds now. -/
theorem Safe.holds {Q : α → σ → Prop} {p : Prog Op Res α} {s : σ} (h : Safe c Q p s)
    (result : ∀ a t, Q a t → c.atAccess t) : c.atAccess s := by
  cases p with
  | ret a => exact result a s h.result
  | access op k => exact h.atAccess

def Stable (c : Setting Op Res σ) (P : σ → Prop) : Prop := ∀ s t, P s → c.env s t → P t

theorem Stable.and {P Q : σ → Prop} (hP : Stable c P) (hQ : Stable c Q) :
    Stable c fun s => P s ∧ Q s :=
  fun s t h move => ⟨hP s t h.1 move, hQ s t h.2 move⟩

def Triple (c : Setting Op Res σ) (P : σ → Prop) (p : Prog Op Res α) (Q : α → σ → Prop) : Prop :=
  ∀ s, P s → Safe c Q p s

theorem Triple.pure {P : σ → Prop} {Q : α → σ → Prop} {a : α} (stable : Stable c (Q a))
    (h : ∀ s, P s → Q a s) : Triple c P (pure a) Q :=
  fun s hs t move => stable s t (h s hs) move

theorem Triple.perform {P : σ → Prop} {op : Op} {Q : Res op → σ → Prop} (stable : Stable c P)
    (guard : ∀ s, P s → c.atAccess s) (post : ∀ r, Stable c (Q r))
    (h : ∀ s, P s → Q (c.perform op s).1 (c.perform op s).2) :
    Triple c P (Prog.perform op) Q := by
  intro s hs t move
  have ht := stable s t hs move
  exact ⟨guard t ht, fun u hu => post _ _ u (h t ht) hu⟩

theorem Triple.bind {P : σ → Prop} {R : α → σ → Prop} {Q : β → σ → Prop} {p : Prog Op Res α}
    {f : α → Prog Op Res β} (first : Triple c P p R) (rest : ∀ a, Triple c (R a) (f a) Q) :
    Triple c P (p >>= f) Q := by
  intro s hs
  have hp := first s hs
  clear first hs
  change Safe c Q (p.bind f) s
  induction p generalizing s with
  | ret a => exact rest a s hp.result
  | access op k ih =>
      intro t move
      have ht := hp.env move
      exact ⟨ht.atAccess, ih _ _ ht.next⟩

/-- A program whose accesses all keep a stable assertion keeps it. -/
theorem Triple.of_uses {K : Op → Prop} {P : σ → Prop} {p : Prog Op Res α} (stable : Stable c P)
    (guard : ∀ s, P s → c.atAccess s) (keep : ∀ op s, K op → P s → P (c.perform op s).2)
    (uses : p.Uses K) : Triple c P p fun _ => P := by
  induction p with
  | ret a => exact fun s hs t move => stable s t hs move
  | access op k ih =>
      intro s hs t move
      have ht := stable s t hs move
      exact ⟨guard t ht, ih _ (uses.2 _) _ (keep op t uses.1 ht)⟩

end Access
