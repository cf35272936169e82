import Mathlib.Data.Nat.Notation
import Mathlib.Tactic.TypeStar

/-! # Code with `catch` blocks

A piece of code is the tree of its possible behaviours: it returns, throws, asks and goes on with
the answer, which may be an exception thrown at the place of the question, or begins or ends a
`catch` block. Who runs the code keeps a stack of the exceptions that are caught at the time, and
`throw;` is about the innermost of them. The direct-style meaning of the code is its evaluation
with a stack of its own, against an oracle that knows answers. -/

namespace Libasync.Foundation

inductive Code (Q A ε α : Type*) where
  | ret (result : α)
  | raise (error : ε)
  | ask (question : Q) (k : Except ε A → Code Q A ε α)
  | beginCatch (error : ε) (rest : Code Q A ε α)
  /-- go on with the exception that was caught last -/
  | current (k : ε → Code Q A ε α)
  | endCatch (rest : Code Q A ε α)

namespace Code

variable {Q A ε α β : Type*}

/-- Ask, and return the answer or throw it. -/
def await (question : Q) : Code Q A ε A :=
  .ask question fun
    | .ok a => .ret a
    | .error e => .raise e

/-- `throw;` -/
def rethrow : Code Q A ε α := .current .raise

/-- Sequencing: an exception of the first part leaves the second part out. -/
def bind : Code Q A ε α → (α → Code Q A ε β) → Code Q A ε β
  | .ret a, f => f a
  | .raise e, _ => .raise e
  | .ask q k, f => .ask q fun answer => (k answer).bind f
  | .beginCatch e rest, f => .beginCatch e (rest.bind f)
  | .current k, f => .current fun e => (k e).bind f
  | .endCatch rest, f => .endCatch (rest.bind f)

/-- The body of a `catch` block, which ends when it returns or throws. -/
def leaveBlock : Code Q A ε α → Code Q A ε α
  | .ret a => .endCatch (.ret a)
  | .raise e => .endCatch (.raise e)
  | .ask q k => .ask q fun answer => (k answer).leaveBlock
  | .beginCatch e rest => .beginCatch e rest.leaveBlock
  | .current k => .current fun e => (k e).leaveBlock
  | .endCatch rest => .endCatch rest.leaveBlock

/-- `try`-`catch`: an exception that leaves the first part, thrown at a question or by the code
itself, is caught by the block. -/
def tryCatch : Code Q A ε α → (ε → Code Q A ε α) → Code Q A ε α
  | .ret a, _ => .ret a
  | .raise e, block => .beginCatch e (block e).leaveBlock
  | .ask q k, block => .ask q fun answer => (k answer).tryCatch block
  | .beginCatch e rest, block => .beginCatch e (rest.tryCatch block)
  | .current k, block => .current fun e => (k e).tryCatch block
  | .endCatch rest, block => .endCatch (rest.tryCatch block)

/-! ### Blocks -/

/-- The code ends the blocks that it begins and this number of others. -/
inductive Balanced : Code Q A ε α → ℕ → Prop where
  | ret (a) : Balanced (.ret a) 0
  | raise (e) : Balanced (.raise e) 0
  | ask {q k n} : (∀ answer, Balanced (k answer) n) → Balanced (.ask q k) n
  | beginCatch {e rest n} : Balanced rest (n + 1) → Balanced (.beginCatch e rest) n
  | current {k n} : (∀ e, Balanced (k e) n) → Balanced (.current k) n
  | endCatch {rest n} : Balanced rest n → Balanced (.endCatch rest) (n + 1)

theorem balanced_await (q : Q) : (await q : Code Q A ε A).Balanced 0 := by
  refine .ask fun answer => ?_
  cases answer with
  | ok a => exact .ret a
  | error e => exact .raise e

theorem balanced_rethrow : (rethrow : Code Q A ε α).Balanced 0 := .current .raise

theorem Balanced.bind {code : Code Q A ε α} {n : ℕ} (h : code.Balanced n)
    {f : α → Code Q A ε β} (hf : ∀ a, (f a).Balanced 0) : (code.bind f).Balanced n := by
  induction h with
  | ret a => exact hf a
  | raise e => exact .raise e
  | ask _ ih => exact .ask ih
  | beginCatch _ ih => exact .beginCatch ih
  | current _ ih => exact .current ih
  | endCatch _ ih => exact .endCatch ih

theorem Balanced.leaveBlock {code : Code Q A ε α} {n : ℕ} (h : code.Balanced n) :
    code.leaveBlock.Balanced (n + 1) := by
  induction h with
  | ret a => exact .endCatch (.ret a)
  | raise e => exact .endCatch (.raise e)
  | ask _ ih => exact .ask ih
  | beginCatch _ ih => exact .beginCatch ih
  | current _ ih => exact .current ih
  | endCatch _ ih => exact .endCatch ih

theorem Balanced.tryCatch {code : Code Q A ε α} {n : ℕ} (h : code.Balanced n)
    {block : ε → Code Q A ε α} (hblock : ∀ e, (block e).Balanced 0) :
    (code.tryCatch block).Balanced n := by
  induction h with
  | ret a => exact .ret a
  | raise e => exact .beginCatch (hblock e).leaveBlock
  | ask _ ih => exact .ask ih
  | beginCatch _ ih => exact .beginCatch ih
  | current _ ih => exact .current ih
  | endCatch _ ih => exact .endCatch ih

/-- The code asks outside of its blocks only, and looks for an exception inside of them only. -/
inductive Confined : Code Q A ε α → ℕ → Prop where
  | ret (a) : Confined (.ret a) 0
  | raise (e) : Confined (.raise e) 0
  | ask {q k} : (∀ answer, Confined (k answer) 0) → Confined (.ask q k) 0
  | beginCatch {e rest n} : Confined rest (n + 1) → Confined (.beginCatch e rest) n
  | current {k n} : (∀ e, Confined (k e) (n + 1)) → Confined (.current k) (n + 1)
  | endCatch {rest n} : Confined rest n → Confined (.endCatch rest) (n + 1)

theorem confined_await (q : Q) : (await q : Code Q A ε A).Confined 0 := by
  refine .ask fun answer => ?_
  cases answer with
  | ok a => exact .ret a
  | error e => exact .raise e

theorem Confined.bind {code : Code Q A ε α} {n : ℕ} (h : code.Confined n)
    {f : α → Code Q A ε β} (hf : ∀ a, (f a).Confined 0) : (code.bind f).Confined n := by
  induction h with
  | ret a => exact hf a
  | raise e => exact .raise e
  | ask _ ih => exact .ask ih
  | beginCatch _ ih => exact .beginCatch ih
  | current _ ih => exact .current ih
  | endCatch _ ih => exact .endCatch ih

theorem Confined.tryCatch {code : Code Q A ε α} {n : ℕ} (h : code.Confined n)
    {block : ε → Code Q A ε α} (hblock : ∀ e, (block e).leaveBlock.Confined 1) :
    (code.tryCatch block).Confined n := by
  induction h with
  | ret a => exact .ret a
  | raise e => exact .beginCatch (hblock e)
  | ask _ ih => exact .ask ih
  | beginCatch _ ih => exact .beginCatch ih
  | current _ ih => exact .current ih
  | endCatch _ ih => exact .endCatch ih

/-! ### Direct evaluation -/

/-- Direct evaluation, with the exceptions that the code has caught. The result is missing if the
code needs an answer that is not known, or an exception where it has caught none. -/
def eval (oracle : Q → Option (Except ε A)) : Code Q A ε α → List ε → Option (Except ε α)
  | .ret a, _ => some (.ok a)
  | .raise e, _ => some (.error e)
  | .ask q k, own => (oracle q).bind fun answer => (k answer).eval oracle own
  | .beginCatch e rest, own => rest.eval oracle (e :: own)
  | .current _, [] => none
  | .current k, e :: own => (k e).eval oracle (e :: own)
  | .endCatch rest, own => rest.eval oracle own.tail

variable {oracle oracle' : Q → Option (Except ε A)}

theorem eval_await (q : Q) (own : List ε) :
    (await q : Code Q A ε A).eval oracle own = oracle q := by
  cases h : oracle q with
  | none => simp [await, eval, h]
  | some answer => cases answer <;> simp [await, eval, h]

/-- The exception of the block is thrown on. -/
theorem eval_rethrow (e : ε) (own : List ε) :
    (rethrow : Code Q A ε α).eval oracle (e :: own) = some (.error e) := rfl

theorem eval_bind {code : Code Q A ε α} {inner : List ε} {n : ℕ} (h : code.Balanced n)
    (hinner : inner.length = n) (f : α → Code Q A ε β) (own : List ε) :
    (code.bind f).eval oracle (inner ++ own) = (code.eval oracle (inner ++ own)).bind fun
      | .ok a => (f a).eval oracle own
      | .error e => some (.error e) := by
  induction h generalizing inner with
  | ret a =>
      obtain rfl := List.eq_nil_of_length_eq_zero hinner
      rfl
  | raise e => rfl
  | @ask q k n _ ih =>
      cases hq : oracle q with
      | none => simp [bind, eval, hq]
      | some answer => simpa [bind, eval, hq] using ih answer hinner
  | @beginCatch e rest n _ ih => exact @ih (e :: inner) (congrArg Nat.succ hinner)
  | current _ ih =>
      cases hown : inner ++ own with
      | nil => simp [bind, eval]
      | cons e rest => simpa [bind, eval, hown] using ih e hinner
  | endCatch _ ih =>
      obtain ⟨e, inner, rfl⟩ := List.exists_cons_of_length_eq_add_one hinner
      exact ih (Nat.succ.inj hinner)

/-- Code that ends no block but its own can be evaluated first, whatever is caught around it. -/
theorem eval_bind_all {code : Code Q A ε α} (h : code.Balanced 0) (f : α → Code Q A ε β)
    (own : List ε) : (code.bind f).eval oracle own = (code.eval oracle own).bind fun
      | .ok a => (f a).eval oracle own
      | .error e => some (.error e) :=
  eval_bind h List.length_nil f own

theorem eval_leaveBlock (code : Code Q A ε α) (own : List ε) :
    code.leaveBlock.eval oracle own = code.eval oracle own := by
  induction code generalizing own with
  | ret a => rfl
  | raise e => rfl
  | ask q k ih => simp [leaveBlock, eval, ih]
  | beginCatch e rest ih => exact ih (e :: own)
  | current k ih =>
      cases own with
      | nil => rfl
      | cons e own => exact ih e (e :: own)
  | endCatch rest ih => exact ih own.tail

/-- The block runs with the exception that it has caught, whatever it asks. -/
theorem eval_tryCatch {code : Code Q A ε α} {inner : List ε} {n : ℕ} (h : code.Balanced n)
    (hinner : inner.length = n) (block : ε → Code Q A ε α) (own : List ε) :
    (code.tryCatch block).eval oracle (inner ++ own) =
      (code.eval oracle (inner ++ own)).bind fun
        | .ok a => some (.ok a)
        | .error e => (block e).eval oracle (e :: own) := by
  induction h generalizing inner with
  | ret a => rfl
  | raise e =>
      obtain rfl := List.eq_nil_of_length_eq_zero hinner
      exact eval_leaveBlock (block e) (e :: own)
  | @ask q k n _ ih =>
      cases hq : oracle q with
      | none => simp [tryCatch, eval, hq]
      | some answer => simpa [tryCatch, eval, hq] using ih answer hinner
  | @beginCatch e rest n _ ih => exact @ih (e :: inner) (congrArg Nat.succ hinner)
  | current _ ih =>
      cases hown : inner ++ own with
      | nil => simp [tryCatch, eval]
      | cons e rest => simpa [tryCatch, eval, hown] using ih e hinner
  | endCatch _ ih =>
      obtain ⟨e, inner, rfl⟩ := List.exists_cons_of_length_eq_add_one hinner
      exact ih (Nat.succ.inj hinner)

theorem eval_tryCatch_all {code : Code Q A ε α} (h : code.Balanced 0)
    (block : ε → Code Q A ε α) (own : List ε) :
    (code.tryCatch block).eval oracle own = (code.eval oracle own).bind fun
      | .ok a => some (.ok a)
      | .error e => (block e).eval oracle (e :: own) :=
  eval_tryCatch h List.length_nil block own

/-- An oracle that knows more gives the same result. -/
theorem eval_mono (hle : ∀ q answer, oracle q = some answer → oracle' q = some answer)
    {code : Code Q A ε α} {own : List ε} {result : Except ε α}
    (h : code.eval oracle own = some result) : code.eval oracle' own = some result := by
  induction code generalizing own with
  | ret a => exact h
  | raise e => exact h
  | ask q k ih =>
      obtain ⟨answer, hq, hk⟩ := Option.bind_eq_some_iff.mp h
      simpa [eval, hle q answer hq] using ih answer hk
  | beginCatch e rest ih => exact ih h
  | current k ih =>
      cases own with
      | nil => cases h
      | cons e own => exact ih e h
  | endCatch rest ih => exact ih h

/-! ### Points of an evaluation -/

/-- Direct evaluation of `code` comes to the point where these exceptions are caught and `rest` is
left to be evaluated. -/
inductive Reaches (oracle : Q → Option (Except ε A)) (code : Code Q A ε α) :
    List ε → Code Q A ε α → Prop where
  | start : Reaches oracle code [] code
  | answered {own q k} (answer : Except ε A) : Reaches oracle code own (.ask q k) →
      oracle q = some answer → Reaches oracle code own (k answer)
  | began {own e rest} : Reaches oracle code own (.beginCatch e rest) →
      Reaches oracle code (e :: own) rest
  | read {own e k} : Reaches oracle code (e :: own) (.current k) →
      Reaches oracle code (e :: own) (k e)
  | ended {own rest} : Reaches oracle code own (.endCatch rest) →
      Reaches oracle code own.tail rest

theorem Reaches.eval_eq {code rest : Code Q A ε α} {own : List ε}
    (h : Reaches oracle code own rest) : code.eval oracle [] = rest.eval oracle own := by
  induction h with
  | start => rfl
  | answered answer _ hq ih => simpa [eval, hq] using ih
  | began _ ih => exact ih
  | read _ ih => exact ih
  | ended _ ih => exact ih

/-- An oracle that knows more comes as far. -/
theorem Reaches.mono {code rest : Code Q A ε α} {own : List ε}
    (h : Reaches oracle code own rest)
    (hle : ∀ q answer, oracle q = some answer → oracle' q = some answer) :
    Reaches oracle' code own rest := by
  induction h with
  | start => exact .start
  | answered answer _ hq ih => exact .answered answer ih (hle _ _ hq)
  | began _ ih => exact .began ih
  | read _ ih => exact .read ih
  | ended _ ih => exact .ended ih

/-- The blocks that the code has begun and not ended are those of the caught exceptions. -/
theorem Reaches.balanced {code rest : Code Q A ε α} {own : List ε}
    (h : Reaches oracle code own rest) (hcode : code.Balanced 0) : rest.Balanced own.length := by
  induction h with
  | start => exact hcode
  | answered answer _ _ ih =>
      cases ih with
      | ask hk => exact hk answer
  | began _ ih =>
      cases ih with
      | beginCatch hrest => exact hrest
  | read _ ih =>
      cases ih with
      | current hk => exact hk _
  | @ended own rest _ ih =>
      cases own with
      | nil => cases ih
      | cons e own =>
          cases ih with
          | endCatch hrest => exact hrest

end Code

end Libasync.Foundation
