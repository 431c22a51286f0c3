import Brazier.Text
import Mathlib.Data.List.DropRight

/-!
# Requests and responses

What the servers use of Boost.Beast messages. `clear` empties the header fields of a response and
leaves its status and its body; `Response.empty` is the value that `res = {}` assigns. The case of
the letters in a field name does not matter.
-/

namespace Brazier

/-- A request, with the answer of `req.keep_alive()`. -/
structure Request where
  method : Text
  target : Text
  version : Nat
  fields : List (Text × Text)
  body : Text
  keepAlive : Bool
  deriving DecidableEq

/-- A response with a string body. -/
structure Response where
  status : Nat
  version : Nat
  fields : List (Text × Text)
  body : Text
  deriving DecidableEq

/-- The names are equal but for the case of their letters. -/
def SameName (a b : Text) : Prop := a.map Char.toLower = b.map Char.toLower

instance (a b : Text) : Decidable (SameName a b) := inferInstanceAs (Decidable (_ = _))

@[simp] theorem sameName_self (name : Text) : SameName name name := rfl

namespace Response

/-- A default constructed response. -/
def empty : Response := ⟨200, 11, [], []⟩

/-- `res.clear()`. -/
def clear (res : Response) : Response := { res with fields := [] }

/-- `res.erase(name)`. -/
def erase (res : Response) (name : Text) : Response :=
  { res with fields := res.fields.filter (fun field => ¬ SameName field.1 name) }

/-- `res.set(name, value)`: the field replaces the ones of its name. -/
def set (res : Response) (name value : Text) : Response :=
  { res with fields := (res.erase name).fields ++ [(name, value)] }

/-- `res.insert(name, value)`: the field goes behind the last one of its name, or to the end. -/
def insert (res : Response) (name value : Text) : Response :=
  let upTo := res.fields.rdropWhile (fun field => ¬ SameName field.1 name)
  if upTo = [] then { res with fields := res.fields ++ [(name, value)] }
  else
    { res with
      fields :=
        upTo ++ (name, value) :: res.fields.rtakeWhile (fun field => ¬ SameName field.1 name) }

/-- The values of the fields of a name. -/
def values (res : Response) (name : Text) : List Text :=
  (res.fields.filter (fun field => SameName field.1 name)).map Prod.snd

/-- `res.count(name)`. -/
def count (res : Response) (name : Text) : Nat :=
  (res.fields.filter (fun field => SameName field.1 name)).length

/-- `res.keep_alive(value)`, on a response without a `Connection` field: the field is set when the
version does not say as much. -/
def keepAlive (res : Response) (value : Bool) : Response :=
  if 11 ≤ res.version then
    if value then res.erase "Connection" else res.set "Connection" "close"
  else
    if value then res.set "Connection" "keep-alive" else res.erase "Connection"

/-- `res.content_length(n)`. -/
def contentLength (res : Response) (n : Nat) : Response :=
  res.set "Content-Length" (natText n)

/-- The status must not come with a body: 1xx, 204 or 304. -/
def isBodiless (status : Nat) : Bool :=
  status / 100 = 1 || status = 204 || status = 304

/-- `res.prepare_payload()`: it sets the length, and throws for a body that must not be. -/
def preparePayload (res : Response) : Except Text Response :=
  if res.body ≠ [] ∧ isBodiless res.status = true then .error "invalid response body"
  else .ok (res.contentLength res.body.length)

/-! Fields are apart from the status and the body. -/

@[simp] theorem set_status (res : Response) (name value : Text) :
    (res.set name value).status = res.status := rfl

@[simp] theorem set_body (res : Response) (name value : Text) :
    (res.set name value).body = res.body := rfl

@[simp] theorem keepAlive_status (res : Response) (value : Bool) :
    (res.keepAlive value).status = res.status := by
  unfold keepAlive
  split <;> split <;> rfl

@[simp] theorem keepAlive_body (res : Response) (value : Bool) :
    (res.keepAlive value).body = res.body := by
  unfold keepAlive
  split <;> split <;> rfl

/-- A field that is inserted is the last one of its name. -/
theorem values_insert (res : Response) (name value : Text) :
    (res.insert name value).values name = res.values name ++ [value] := by
  have hupTo : (res.fields.rdropWhile (fun field => ¬ SameName field.1 name)).filter
      (fun field => SameName field.1 name) =
        res.fields.filter (fun field => SameName field.1 name) := by
    induction res.fields using List.reverseRecOn with
    | nil => rfl
    | append_singleton fields field ih =>
        rw [List.rdropWhile_concat]
        split
        · next hne =>
            have hfield : ¬ SameName field.1 name := by simpa using hne
            rw [ih, List.filter_append, List.filter_cons_of_neg (by simpa using hfield)]
            simp
        · rfl
  have hbehind : (res.fields.rtakeWhile (fun field => ¬ SameName field.1 name)).filter
      (fun field => SameName field.1 name) = [] := by
    refine List.filter_eq_nil_iff.mpr fun field hfield => ?_
    simpa using List.mem_rtakeWhile_imp hfield
  unfold insert values
  dsimp only
  split
  · simp
  · rw [List.filter_append, hupTo, List.filter_cons_of_pos (by simp), hbehind]
    simp

end Response

end Brazier
