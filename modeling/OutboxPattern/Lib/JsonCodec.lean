import Mathlib.Data.Finmap
import OutboxPattern.Lib.JsonText

/-!
# JSON codecs

A codec of `α` writes the values of `α` as JSON values and reads them back, a format of `α` writes
them as strings; that the two directions fit is part of both.  There are codecs for the types of
JSON, for the strings of a format, for lists, dicts and records, and `Codec.nested` is the format in
which a value is a string that holds its JSON text.

The keys of an object may be written in any order: an `Arrangement` chooses one.
-/

namespace JsonText

/-- A way to write the values of `α` as strings, and to read them back. -/
structure Format (α : Type) where
  format : α → String
  parse : String → Option α
  parse_format : ∀ a, parse (format a) = some a

/-- A way to write the values of `α` as JSON values, and to read them back. -/
structure Codec (α : Type) where
  encode : α → Value
  decode : Value → Option α
  decode_encode : ∀ a, decode (encode a) = some a

/-- An order of the members of each object. -/
structure Arrangement where
  arrange : List (String × Value) → List (String × Value)
  arrange_perm : ∀ members, (arrange members).Perm members

attribute [simp] Codec.decode_encode

variable {α : Type}

namespace Format

def codec (f : Format α) : Codec α where
  encode a := .str (f.format a)
  decode
    | .str s => f.parse s
    | _ => none
  decode_encode := f.parse_format

/-- A string that may be missing; `null` is then written for it. -/
def orNull (f : Format α) : Codec (Option α) where
  encode
    | none => .null
    | some a => .str (f.format a)
  decode
    | .null => some none
    | .str s => (f.parse s).map some
    | _ => none
  decode_encode
    | none => rfl
    | some a => congrArg (Option.map some) (f.parse_format a)

end Format

namespace Codec

def nat : Codec ℕ where
  encode n := .num (.ofNat n)
  decode
    | .num n => n.toNat?
    | _ => none
  decode_encode := Number.toNat?_ofNat

def bool : Codec Bool where
  encode b := .bool b
  decode
    | .bool b => some b
    | _ => none
  decode_encode _ := rfl

def string : Codec String := Format.codec ⟨id, some, fun _ => rfl⟩

/-- A list is read as it was written, if its elements are. -/
theorem mapM_map_eq_some {β : Type} {write : α → β} {read : β → Option α}
    (h : ∀ a, read (write a) = some a) (as : List α) : (as.map write).mapM read = some as := by
  have hread : read ∘ write = some := funext h
  rw [List.mapM_map, hread]
  exact List.mapM_pure.trans (congrArg some (List.map_id as))

def list (c : Codec α) : Codec (List α) where
  encode as := .arr (as.map c.encode)
  decode
    | .arr vs => vs.mapM c.decode
    | _ => none
  decode_encode := mapM_map_eq_some c.decode_encode

/-- A value as a string that holds its text. -/
def nested (c : Codec α) : Format α where
  format a := dumps true (c.encode a)
  parse text := (loads text).bind c.decode
  parse_format a := by rw [loads_dumps, Option.bind_some, decode_encode]

/-- The entries of a finite map, in any order, are the map. -/
theorem toFinmap_eq {m : Finmap fun _ : String => α} {entries : List (Σ _ : String, α)}
    (h : (entries : Multiset (Σ _ : String, α)) = m.entries) : entries.toFinmap = m := by
  induction m using Finmap.induction_on with
  | H a =>
      have hperm : entries.Perm a.entries := Multiset.coe_eq_coe.mp h
      have hnodup : entries.NodupKeys := (List.perm_nodupKeys hperm).mpr a.nodupKeys
      refine Finmap.ext_lookup fun key => ?_
      rw [Finmap.dlookup_list_toFinmap, Finmap.lookup_toFinmap]
      exact List.perm_dlookup key hnodup hperm

/-- A finite map, with its entries in the order `entries`. -/
def dict (c : Codec α) (entries : (Finmap fun _ : String => α) → List (Σ _ : String, α))
    (h : ∀ m, (entries m : Multiset (Σ _ : String, α)) = m.entries) :
    Codec (Finmap fun _ : String => α) where
  encode m := .obj ((entries m).map fun e => (e.1, c.encode e.2))
  decode
    | .obj members =>
        (members.mapM fun member => (c.decode member.2).map (Sigma.mk member.1)).map List.toFinmap
    | _ => none
  decode_encode m := by
    refine (congrArg (Option.map List.toFinmap) (mapM_map_eq_some (fun e => ?_) _)).trans
      (congrArg some (toFinmap_eq (h m)))
    rw [decode_encode, Option.map_some]

/-- In an object without repeated keys, a name stands for the member that has it. -/
theorem lookup_eq_some_iff {members : List (String × Value)}
    (hnodup : (members.map Prod.fst).Nodup) {name : String} {v : Value} :
    members.lookup name = some v ↔ (name, v) ∈ members := by
  induction members with
  | nil => simp
  | cons member members ih =>
      rw [List.map_cons, List.nodup_cons] at hnodup
      rw [List.lookup_cons, List.mem_cons]
      by_cases hname : name = member.1
      · have hnot : (name, v) ∉ members := fun hmem =>
          hnodup.1 (hname ▸ List.mem_map_of_mem (f := Prod.fst) hmem)
        subst hname
        simp [Prod.ext_iff, hnot, eq_comm]
      · have hbeq : (name == member.1) = false := beq_eq_false_iff_ne.mpr hname
        simp only [hbeq, ih hnodup.2, Prod.ext_iff, hname, false_and, false_or]

theorem lookup_perm {members members' : List (String × Value)} (hperm : members'.Perm members)
    (hnodup : (members.map Prod.fst).Nodup) (name : String) :
    members'.lookup name = members.lookup name := by
  have hnodup' : (members'.map Prod.fst).Nodup := (hperm.map Prod.fst).nodup_iff.mpr hnodup
  apply Option.ext
  intro v
  rw [lookup_eq_some_iff hnodup', lookup_eq_some_iff hnodup, hperm.mem_iff]

/-- What the object has under a name, read by a codec. -/
def field (lookup : String → Option Value) (name : String) (c : Codec α) : Option α :=
  (lookup name).bind c.decode

/-- A record: the members that are written for it, and how it is read from what an object has under
a name. -/
def record (arrangement : Arrangement) (members : α → List (String × Value))
    (read : (String → Option Value) → Option α)
    (hnodup : ∀ a, ((members a).map Prod.fst).Nodup)
    (hread : ∀ a, read (fun name => (members a).lookup name) = some a) : Codec α where
  encode a := .obj (arrangement.arrange (members a))
  decode
    | .obj members => read fun name => members.lookup name
    | _ => none
  decode_encode a := by
    have hlookup := lookup_perm (arrangement.arrange_perm (members a)) (hnodup a)
    exact (congrArg read (funext hlookup)).trans (hread a)

end Codec

end JsonText
