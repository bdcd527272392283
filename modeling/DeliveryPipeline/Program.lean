import DeliveryPipeline.Call

/-! # Programs

A program is a tree of calls: it is done with a value, or makes a call and goes on with the reply,
whatever that is. So a program says nothing about its collaborators, and can be run against a store,
under injected failures, or in turns with another program.
-/

namespace DeliveryPipeline

set_option autoImplicit false

inductive Program (α : Type) where
  | done (value : α)
  | call (call : Call) (next : call.Reply → Program α)

namespace Program

variable {α β γ : Type}

def bind (f : α → Program β) : Program α → Program β
  | done a => f a
  | call c next => call c fun reply => bind f (next reply)

instance : Monad Program where
  pure := done
  bind p f := bind f p

def ask (c : Call) : Program c.Reply := call c done

theorem bind_done (p : Program α) : bind done p = p := by
  induction p with
  | done => rfl
  | call c next ih => simp [bind, ih]

theorem bind_bind (f : α → Program β) (g : β → Program γ) (p : Program α) :
    bind g (bind f p) = bind (fun a => bind g (f a)) p := by
  induction p with
  | done => rfl
  | call c next ih => simp [bind, ih]

instance : LawfulMonad Program :=
  LawfulMonad.mk' Program bind_done (fun _ _ => rfl) (fun p f g => bind_bind f g p)

end Program

structure Exchange where
  call : Call
  reply : call.Reply

end DeliveryPipeline
