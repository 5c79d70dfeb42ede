/-! Work done step by step. A piece of work is either done, or it makes one request and goes on with
the answer, whatever that is. -/

namespace StaticTyping

universe u v

/-- Work that makes requests of the kinds in `F` and comes to an answer. -/
inductive Steps (F : Type → Type u) (α : Type) : Type (max 1 u) where
  | done (answer : α)
  | ask {β : Type} (request : F β) (next : β → Steps F α)

namespace Steps

variable {F : Type → Type u} {G : Type → Type v} {α β γ : Type}

def bind : Steps F α → (α → Steps F β) → Steps F β
  | .done answer, f => f answer
  | .ask request next, f => .ask request fun answer => (next answer).bind f

instance : Monad (Steps F) where
  pure := .done
  bind := bind

/-- One request, with its answer as the answer. -/
def lift (request : F α) : Steps F α := .ask request .done

/-- Does other work in place of each request. -/
def handle (answer : {β : Type} → F β → Steps G β) : Steps F α → Steps G α
  | .done a => .done a
  | .ask request next => (answer request).bind fun a => (next a).handle answer

theorem pure_eq (a : α) : (pure a : Steps F α) = .done a := rfl

theorem bind_eq (x : Steps F α) (f : α → Steps F β) : x >>= f = x.bind f := rfl

theorem bind_done (x : Steps F α) : x.bind .done = x := by
  induction x with
  | done _ => rfl
  | ask request next ih => simp only [bind, ih]

theorem bind_assoc (x : Steps F α) (f : α → Steps F β) (g : β → Steps F γ) :
    (x.bind f).bind g = x.bind fun a => (f a).bind g := by
  induction x with
  | done _ => rfl
  | ask request next ih => simp only [bind, ih]

instance : LawfulMonad (Steps F) :=
  LawfulMonad.mk' (Steps F) bind_done (fun _ _ => rfl) bind_assoc

theorem handle_bind (answer : {β : Type} → F β → Steps G β) (x : Steps F α) (f : α → Steps F β) :
    (x.bind f).handle answer = (x.handle answer).bind fun a => (f a).handle answer := by
  induction x with
  | done _ => rfl
  | ask request next ih => simp only [bind, handle, ih, bind_assoc]

end Steps

end StaticTyping
