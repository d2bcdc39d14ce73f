/-!
# Programs that call an environment

Programs whose calls the environment answers one after the other, and what such a
program ensures of the calls and answers that led to its result.
-/
namespace Sysintercept.Effects

/-- A program: it returns, throws, does not come to an end, or calls the
    environment and goes on with the answer. -/
inductive Prog (Op : Type) (Resp : Op → Type) (ε α : Type) : Type
  | ret (a : α)
  | raise (e : ε)
  | spin
  | call (op : Op) (k : Resp op → Prog Op Resp ε α)

/-- A call and its answer. -/
structure Event (Op : Type) (Resp : Op → Type) where
  op : Op
  answer : Resp op

variable {Op : Type} {Resp : Op → Type} {ε α β : Type}

namespace Prog

protected def bind : Prog Op Resp ε α → (α → Prog Op Resp ε β) → Prog Op Resp ε β
  | ret a, f => f a
  | raise e, _ => raise e
  | spin, _ => spin
  | call op k, f => call op (fun r => (k r).bind f)

instance : Monad (Prog Op Resp ε) where
  pure := ret
  bind := Prog.bind

/-- Runs a handler on what a program throws. -/
def catch_ : Prog Op Resp ε α → (ε → Prog Op Resp ε α) → Prog Op Resp ε α
  | ret a, _ => ret a
  | raise e, h => h e
  | spin, _ => spin
  | call op k, h => call op (fun r => (k r).catch_ h)

/-- A value that may be an exception. -/
def lift : Except ε α → Prog Op Resp ε α
  | .ok a => ret a
  | .error e => raise e

/-- A program that calls through a wider environment. -/
def embed {Op' : Type} {Resp' : Op' → Type} (inject : Op → Op') (answer : (op : Op) → Resp' (inject op) → Resp op) :
    Prog Op Resp ε α → Prog Op' Resp' ε α
  | ret a => ret a
  | raise e => raise e
  | spin => spin
  | call op k => call (inject op) (fun r => (k (answer op r)).embed inject answer)

/-- The calls of a program in an environment that answers as given, and what it comes to. -/
def drive (answers : (op : Op) → Resp op) : Prog Op Resp ε α → List (Event Op Resp) × Prog Op Resp ε α
  | call op k =>
    let (events, last) := drive answers (k (answers op))
    (⟨op, answers op⟩ :: events, last)
  | p => ([], p)

end Prog

/-- Whatever admissible answers a program gets after a history, it only returns
    values that satisfy the postcondition together with the history by then. -/
def Ensures (admits : (op : Op) → Resp op → Prop) (Q : α → List (Event Op Resp) → Prop) :
    List (Event Op Resp) → Prog Op Resp ε α → Prop
  | h, .ret a => Q a h
  | _, .raise _ => True
  | _, .spin => True
  | h, .call op k => ∀ r, admits op r → Ensures admits Q (h ++ [⟨op, r⟩]) (k r)

variable {admits : (op : Op) → Resp op → Prop} {Q Q' : α → List (Event Op Resp) → Prop}
  {R : β → List (Event Op Resp) → Prop} {h : List (Event Op Resp)}

theorem ensures_mono {p : Prog Op Resp ε α} (ensures : Ensures admits Q h p) (weaker : ∀ a h', Q a h' → Q' a h') :
    Ensures admits Q' h p := by
  induction p generalizing h with
  | ret a => exact weaker a h ensures
  | raise | spin => trivial
  | call op k ih => exact fun r admitted => ih r (ensures r admitted)

theorem ensures_bind {p : Prog Op Resp ε α} {f : α → Prog Op Resp ε β}
    (ensures : Ensures admits (fun a h' => Ensures admits R h' (f a)) h p) : Ensures admits R h (p >>= f) := by
  induction p generalizing h with
  | ret a => exact ensures
  | raise | spin => trivial
  | call op k ih => exact fun r admitted => ih r (ensures r admitted)

/-- A program only ever adds to its history. -/
theorem ensures_extends (p : Prog Op Resp ε α) (h : List (Event Op Resp)) :
    Ensures admits (fun _ h' => h <+: h') h p := by
  induction p generalizing h with
  | ret a => exact List.prefix_rfl
  | raise | spin => trivial
  | call op k ih =>
    intro r _
    exact ensures_mono (ih r (h ++ [⟨op, r⟩])) (fun _ _ longer => (List.prefix_append h _).trans longer)

/-- After a program of which nothing is known, the history still holds. -/
theorem ensures_any {p : Prog Op Resp ε α} {f : α → Prog Op Resp ε β}
    (rest : ∀ a h', h <+: h' → Ensures admits R h' (f a)) : Ensures admits R h (p >>= f) :=
  ensures_bind (ensures_mono (ensures_extends p h) rest)

theorem ensures_lift {v : Except ε α} {f : α → Prog Op Resp ε β} (rest : ∀ a, v = .ok a → Ensures admits R h (f a)) :
    Ensures admits R h (Prog.lift v >>= f) := by
  cases v with
  | ok a => exact rest a rfl
  | error e => trivial

end Sysintercept.Effects
