import MqttServices.Common.Payload

/-!
# Exceptions

* `Exception`: the type of an exception and the chain of its inner exceptions.
* `FindAuthenticationException` and **`FindAuthenticationException_isSome`**.
* `caught`: a `try` block whose handler logs every exception, and **`caught_ok`**.
-/

namespace MqttServices

/-- `SocketError`, as far as the code looks at it. -/
inductive SocketError where
  | AddressAlreadyInUse
  | other (code : Int32)
  deriving DecidableEq

/-- The type of an exception, as far as the code tells them apart. -/
inductive ExceptionType where
  | NullReferenceException
  | ArgumentNullException
  | ArgumentOutOfRangeException
  | InvalidOperationException
  | AuthenticationException
  | CryptographicException
  | IOException
  | SocketException (SocketErrorCode : SocketError)
  | other (name : Str)
  deriving DecidableEq

/-- An exception, with the types down its `InnerException` chain. -/
structure Exception where
  type : ExceptionType
  inner : List ExceptionType := []
  deriving DecidableEq

namespace Exception

def OperationCanceledException : Exception := ⟨.other "OperationCanceledException".toList, []⟩

def InnerException (e : Exception) : Option Exception :=
  match e.inner with
  | [] => none
  | type :: inner => some ⟨type, inner⟩

end Exception

theorem bind_eq_ok_iff {ε α β : Type} {x : Except ε α} {f : α → Except ε β} {b : β} :
    (x >>= f) = .ok b ↔ ∃ a, x = .ok a ∧ f a = .ok b := by
  cases x with
  | error e => exact iff_of_false nofun fun ⟨_, h, _⟩ => nomatch h
  | ok a =>
    constructor
    · exact fun h => ⟨a, rfl, h⟩
    · rintro ⟨_, h, hf⟩
      cases h
      exact hf

/-- The loop of `FindAuthenticationException` down the chain. -/
def findAuthenticationException : List ExceptionType → Option Exception
  | [] => none
  | type :: inner =>
    if type = .AuthenticationException then some ⟨type, inner⟩ else findAuthenticationException inner

def FindAuthenticationException (e : Exception) : Option Exception := findAuthenticationException (e.type :: e.inner)

/-- **An authentication failure is found wherever it stands in the chain.** -/
theorem FindAuthenticationException_isSome (e : Exception) :
    (FindAuthenticationException e).isSome ↔ ExceptionType.AuthenticationException ∈ e.type :: e.inner := by
  rw [FindAuthenticationException]
  induction e.type :: e.inner with
  | nil => simp [findAuthenticationException]
  | cons type inner ih =>
    rw [findAuthenticationException, List.mem_cons]
    split_ifs with h
    · exact iff_of_true rfl (Or.inl h.symm)
    · rw [ih]
      exact (or_iff_right (Ne.symm h)).symm

/-- A `try` block with a handler that goes on in every case. -/
def caught {α : Type} (body : Except Exception α) (handler : Exception → α) : Except Exception α :=
  tryCatch body fun e => pure (handler e)

section Caught

variable {α : Type} {body : Except Exception α} {handler : Exception → α}

theorem caught_of_ok {a : α} (h : body = .ok a) : caught body handler = .ok a := by
  rw [caught, h]
  rfl

theorem caught_of_error {e : Exception} (h : body = .error e) : caught body handler = .ok (handler e) := by
  rw [caught, h]
  rfl

/-- **No exception leaves the block.** -/
theorem caught_ok (body : Except Exception α) (handler : Exception → α) : ∃ a, caught body handler = .ok a := by
  cases h : body with
  | ok a => exact ⟨a, caught_of_ok rfl⟩
  | error e => exact ⟨handler e, caught_of_error rfl⟩

end Caught

end MqttServices
