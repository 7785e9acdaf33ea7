import Mathlib.Tactic

/-!
# Fetching and decoding

Every fetch of the app hands a request to `DataGetter.fetchData` and decodes
the data of its single callback.  The closures differ only in what they store
before they call their own completion, so they are one definition here, in
which the completion acts on the state of the caller.

A piece of data is represented by what the decoder makes of it.  The URLs of
the app have a scheme, a host and a path that starts with a slash, so
`components.url` is never `nil` and every request is sent.
-/

universe u v

namespace Stockly

inductive FetchError where
  | transport (localizedDescription : String)
  | non200StatusCode
  | noData
  | decoding (localizedDescription : String)
deriving DecidableEq, Repr

def FetchError.localizedDescription : FetchError → String
  | .transport text => text
  | .non200StatusCode =>
      "The operation couldn’t be completed. (Stockly.DataGetter.HTTPError error 0.)"
  | .noData =>
      "The operation couldn’t be completed. (Stockly.DataGetter.HTTPError error 1.)"
  | .decoding text => text

/-- What the data task of `URLSession` reports: some data (with the decoder's
result for it), the status code of the response, and an error. -/
structure Transport (α : Type u) where
  data : Option (Except String α)
  statusCode : Option ℤ
  error : Option String
deriving DecidableEq, Repr

namespace Transport

variable {α : Type u}

def decoded (value : α) : Transport α :=
  { data := some (.ok value), statusCode := some 200, error := none }

def failed (text : String) : Transport α :=
  { data := none, statusCode := none, error := some text }

def Failed (transport : Transport α) : Prop :=
  transport.error.isSome ∨
    (∃ code, transport.statusCode = some code ∧ code ≠ 200) ∨
    transport.data = none ∨ ∃ text, transport.data = some (.error text)

end Transport

namespace DataGetter

variable {α : Type u} {σ : Type v}

def fetchData (transport : Transport α) :
    Option (Except String α) × Option FetchError :=
  match transport.error with
  | some text => (none, some (.transport text))
  | none =>
      match transport.statusCode with
      | some code =>
          if code ≠ 200 then (none, some .non200StatusCode)
          else
            match transport.data with
            | none => (none, some .noData)
            | some data => (some data, none)
      | none =>
          match transport.data with
          | none => (none, some .noData)
          | some data => (some data, none)

/-- The closure which the controllers pass to `fetchData`.  The error branch
calls the completion and then falls through to the decoding. -/
def fetchDecoded
    (store : α → σ → σ)
    (completion : Option FetchError → Option α → σ → σ)
    (transport : Transport α) (state : σ) : σ :=
  let callback := fetchData transport
  let state :=
    match callback.2 with
    | some error => completion (some error) none state
    | none => state
  match callback.1 with
  | none => state
  | some (.ok value) => completion none (some value) (store value state)
  | some (.error text) => completion (some (.decoding text)) none state

def outcome (transport : Transport α) : Except FetchError α :=
  match fetchData transport with
  | (_, some error) => .error error
  | (none, none) => .error .noData
  | (some (.ok value), none) => .ok value
  | (some (.error text), none) => .error (.decoding text)

theorem fetchData_error_iff (transport : Transport α) :
    (fetchData transport).1 = none ↔ (fetchData transport).2.isSome := by
  unfold fetchData
  cases transport.error with
  | some text => simp
  | none =>
      cases transport.statusCode with
      | none => cases transport.data <;> simp
      | some code =>
          by_cases hcode : code = 200
          · cases transport.data <;> simp [hcode]
          · simp [hcode]

/-- The completion runs exactly once, with the outcome of the fetch, and the
store only before a successful completion. -/
theorem fetchDecoded_eq (store : α → σ → σ)
    (completion : Option FetchError → Option α → σ → σ)
    (transport : Transport α) (state : σ) :
    fetchDecoded store completion transport state =
      match outcome transport with
      | .ok value => completion none (some value) (store value state)
      | .error error => completion (some error) none state := by
  have hiff := fetchData_error_iff transport
  unfold fetchDecoded outcome
  generalize fetchData transport = callback at hiff ⊢
  rcases callback with ⟨_ | data, _ | error⟩
  · simp at hiff
  · rfl
  · cases data <;> rfl
  · simp at hiff

theorem exists_outcome_error_iff (transport : Transport α) :
    (∃ error, outcome transport = .error error) ↔ transport.Failed := by
  rcases transport with ⟨data, statusCode, _ | text⟩
  · cases statusCode with
    | none =>
        rcases data with _ | _ | value <;>
          simp [outcome, fetchData, Transport.Failed]
    | some code =>
        by_cases hcode : code = 200
        · rcases data with _ | _ | value <;>
            simp [outcome, fetchData, Transport.Failed, hcode]
        · simp [outcome, fetchData, Transport.Failed, hcode]
  · simp [outcome, fetchData, Transport.Failed]

@[simp] theorem outcome_decoded (value : α) :
    outcome (.decoded value) = .ok value := by
  simp [outcome, fetchData, Transport.decoded]

@[simp] theorem outcome_failed (text : String) :
    outcome (.failed text : Transport α) = .error (.transport text) := rfl

end DataGetter

end Stockly
