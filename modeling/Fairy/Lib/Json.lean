namespace Fairy.Lib

/-- A JSON value; the entries of an object stand in the order they were put in. -/
inductive Json
  | null
  | bool (b : Bool)
  | int (n : Int)
  | str (s : String)
  | arr (items : List Json)
  | obj (fields : List (String × Json))

namespace Json

mutual

def decEq : (a b : Json) → Decidable (a = b)
  | null, null => isTrue rfl
  | bool a, bool b =>
    if h : a = b then isTrue (congrArg bool h) else isFalse fun he => h (bool.inj he)
  | int a, int b => if h : a = b then isTrue (congrArg int h) else isFalse fun he => h (int.inj he)
  | str a, str b => if h : a = b then isTrue (congrArg str h) else isFalse fun he => h (str.inj he)
  | arr a, arr b =>
    match decEqItems a b with
    | isTrue h => isTrue (congrArg arr h)
    | isFalse h => isFalse fun he => h (arr.inj he)
  | obj a, obj b =>
    match decEqFields a b with
    | isTrue h => isTrue (congrArg obj h)
    | isFalse h => isFalse fun he => h (obj.inj he)
  | null, bool _ | null, int _ | null, str _ | null, arr _ | null, obj _
  | bool _, null | bool _, int _ | bool _, str _ | bool _, arr _ | bool _, obj _
  | int _, null | int _, bool _ | int _, str _ | int _, arr _ | int _, obj _
  | str _, null | str _, bool _ | str _, int _ | str _, arr _ | str _, obj _
  | arr _, null | arr _, bool _ | arr _, int _ | arr _, str _ | arr _, obj _
  | obj _, null | obj _, bool _ | obj _, int _ | obj _, str _ | obj _, arr _ => isFalse nofun

def decEqItems : (a b : List Json) → Decidable (a = b)
  | [], [] => isTrue rfl
  | [], _ :: _ => isFalse nofun
  | _ :: _, [] => isFalse nofun
  | a :: as, b :: bs =>
    match decEq a b, decEqItems as bs with
    | isTrue h, isTrue h' => isTrue (h ▸ h' ▸ rfl)
    | isFalse h, _ => isFalse fun he => h (List.cons.inj he).1
    | _, isFalse h => isFalse fun he => h (List.cons.inj he).2

def decEqFields : (a b : List (String × Json)) → Decidable (a = b)
  | [], [] => isTrue rfl
  | [], _ :: _ => isFalse nofun
  | _ :: _, [] => isFalse nofun
  | (k, a) :: as, (l, b) :: bs =>
    if hk : k = l then
      match decEq a b, decEqFields as bs with
      | isTrue h, isTrue h' => isTrue (hk ▸ h ▸ h' ▸ rfl)
      | isFalse h, _ => isFalse fun he => h (Prod.mk.inj (List.cons.inj he).1).2
      | _, isFalse h => isFalse fun he => h (List.cons.inj he).2
    else isFalse fun he => hk (Prod.mk.inj (List.cons.inj he).1).1

end

instance : DecidableEq Json := decEq

/-- The text of an optional field. -/
def optional : Option String → Json
  | none => null
  | some s => str s

/-- `{**fields, key: value}`. -/
def put (fields : List (String × Json)) (key : String) (value : Json) : List (String × Json) :=
  if fields.any fun f => f.1 == key then
    fields.map fun f => if f.1 = key then (key, value) else f
  else fields ++ [(key, value)]

def field? (j : Json) (key : String) : Option Json :=
  match j with
  | obj fields => (fields.find? fun f => f.1 = key).map Prod.snd
  | _ => none

/-- The integer at the end of a path of keys. -/
def int? : List String → Json → Option Int
  | [], int n => some n
  | [], _ => none
  | key :: path, j =>
    match j.field? key with
    | some inner => inner.int? path
    | none => none

end Json

end Fairy.Lib
