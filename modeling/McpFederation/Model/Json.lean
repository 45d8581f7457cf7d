/-
JSON values, as `serde_json::Value` has them.

An object is a `BTreeMap`: its members are kept in the order of their keys, and a key
occurs once.  Here it is the list of those members, and `insert` keeps the order.  The
functions are the accessors the program calls; the lemmas say what reading a member
after writing one gives, which is all the rest of the development uses of objects.
-/
import Mathlib.Init

namespace McpFederation

/-- `serde_json::Number`; a float is its bit pattern. -/
inductive Number where
  | posInt (n : UInt64)
  | negInt (n : Int64)
  | float (bits : UInt64)
deriving Repr, DecidableEq

/-- `serde_json::Value`. -/
inductive Value where
  | null
  | bool (b : Bool)
  | number (n : Number)
  | string (s : String)
  | array (items : List Value)
  | object (members : List (String × Value))
deriving Repr, Inhabited

namespace Members

/-- `Map::get`. -/
def get? : List (String × Value) → String → Option Value
  | [], _ => none
  | (k, v) :: rest, key => if k = key then some v else get? rest key

/-- `Map::insert`. -/
def insert : List (String × Value) → String → Value → List (String × Value)
  | [], key, value => [(key, value)]
  | (k, v) :: rest, key, value =>
      if k = key then (key, value) :: rest
      else if key < k then (key, value) :: (k, v) :: rest
      else (k, v) :: insert rest key value

@[simp] theorem get?_insert (m : List (String × Value)) (key : String) (value : Value)
    (other : String) :
    get? (insert m key value) other = if key = other then some value else get? m other := by
  induction m with
  | nil => simp [insert, get?]
  | cons kv rest ih =>
      obtain ⟨k, v⟩ := kv
      by_cases hk : k = key
      · subst hk
        by_cases ho : k = other <;> simp [insert, get?, ho]
      · by_cases hlt : key < k
        · simp only [insert, if_neg hk, if_pos hlt, get?]
        · simp only [insert, if_neg hk, if_neg hlt, get?]
          by_cases hko : k = other
          · have hne : key ≠ other := fun hc => hk (hko.trans hc.symm)
            rw [if_pos hko, if_neg hne, if_pos hko]
          · rw [if_neg hko, if_neg hko, ih]

end Members

namespace Value

/-- `json!({ ... })` with the given members. -/
def obj (members : List (String × Value)) : Value :=
  .object (members.foldl (fun m kv => Members.insert m kv.1 kv.2) [])

/-- `Value::get` with a string key. -/
def get? : Value → String → Option Value
  | .object m, key => Members.get? m key
  | _, _ => none

/-- `value[key]`, which reads a missing member as `null`. -/
def index (v : Value) (key : String) : Value := (v.get? key).getD .null

/-- `value[key] = member`.  `IndexMut` panics on a value that is neither an object nor
`null`; every caller has already found a member of the value. -/
def setKey : Value → String → Value → Value
  | .object m, key, member => .object (Members.insert m key member)
  | .null, key, member => .object [(key, member)]
  | v, _, _ => v

/-- `Value::as_str`. -/
def asStr : Value → Option String
  | .string s => some s
  | _ => none

/-- `Value::as_array`. -/
def asArray : Value → Option (List Value)
  | .array items => some items
  | _ => none

/-- The string member `key`, the accessor chain `.get(key).and_then(as_str)`. -/
def strAt (v : Value) (key : String) : Option String := (v.get? key).bind asStr

/-- `usize` as a JSON number. -/
def ofNat (n : Nat) : Value := .number (.posInt (UInt64.ofNat n))

theorem get?_setKey {v : Value} {key' : String} {x : Value} (h : v.get? key' = some x)
    (key : String) (member : Value) (other : String) :
    (v.setKey key member).get? other = if key = other then some member else v.get? other := by
  cases v with
  | object m => exact Members.get?_insert m key member other
  | null => simp [get?] at h
  | bool b => simp [get?] at h
  | number n => simp [get?] at h
  | string s => simp [get?] at h
  | array items => simp [get?] at h

theorem strAt_setKey {v : Value} {key' : String} {x : Value} (h : v.get? key' = some x)
    (key : String) (member : Value) (other : String) :
    (v.setKey key member).strAt other = if key = other then member.asStr else v.strAt other := by
  unfold strAt
  rw [get?_setKey h]
  split <;> simp

theorem get?_eq_some_of_strAt {v : Value} {key s : String} (h : v.strAt key = some s) :
    v.get? key = some (.string s) := by
  unfold strAt at h
  cases hv : v.get? key with
  | none => simp [hv] at h
  | some x => cases x <;> simp_all [asStr]

end Value

end McpFederation
