import PluginManager.Cache.Prepare
import PluginManager.Proofs.Path.Steps

/-!
# Versions in addresses

The address of a schema names the version by the segment before the last.  The version is looked
for among all pieces between slashes, and the first of these are no segments: the scheme, nothing,
and the authority.

* `Address`: the parts of an address.
* `splitText_text`: **the pieces of an address** are its parts.
* `version_is_second_to_last`: which part the version is, for every number of segments.
* `authority_is_version`: with a single segment it is none of them.
-/

namespace PluginManager.Cache

/-- The parts of an address without query and fragment.  No part has a slash in it. -/
structure Address where
  scheme : String
  authority : String
  segments : List String
  no_slash : ∀ part ∈ scheme :: authority :: segments, '/' ∉ part.toList
  authority_ne_empty : authority ≠ ""
  segments_ne_empty : ∀ segment ∈ segments, segment ≠ ""

namespace Address

variable {a : Address} {version last : String} {init : List String}

/-- The address as it is written: scheme, colon, two slashes, authority, and each segment behind a
slash. -/
def text (a : Address) : String :=
  ("" :: a.authority :: a.segments).foldl (fun text part => text ++ "/" ++ part) (a.scheme ++ ":")

/-! ## Pieces -/

theorem splitText_foldl (start : String) {parts : List String}
    (h : ∀ part ∈ parts, '/' ∉ part.toList) :
    Text.splitText '/' (parts.foldl (fun text part => text ++ "/" ++ part) start) =
      Text.splitText '/' start ++ parts := by
  induction parts generalizing start with
  | nil => simp
  | cons part rest ih =>
    have hpart : Text.splitText '/' part = [part] :=
      Text.splitText_of_not_mem (h part List.mem_cons_self)
    have hsplit : Text.splitText '/' (start ++ "/" ++ part) =
        Text.splitText '/' start ++ Text.splitText '/' part := Text.splitText_append_sep
    rw [List.foldl_cons, ih _ fun s hs => h s (List.mem_cons_of_mem part hs), hsplit, hpart,
      List.append_assoc, List.singleton_append]

/-- **The pieces of an address** are its parts, with nothing between scheme and authority. -/
theorem splitText_text (a : Address) :
    Text.splitText '/' a.text = (a.scheme ++ ":") :: "" :: a.authority :: a.segments := by
  have hscheme : '/' ∉ (a.scheme ++ ":").toList := by
    simpa using a.no_slash a.scheme List.mem_cons_self
  have hparts : ∀ part ∈ "" :: a.authority :: a.segments, '/' ∉ part.toList := by
    intro part hpart
    rcases List.mem_cons.mp hpart with rfl | hpart
    · simp
    · exact a.no_slash part (List.mem_cons_of_mem a.scheme hpart)
  rw [text, splitText_foldl _ hparts, Text.splitText_of_not_mem hscheme, List.singleton_append]

/-! ## Versions -/

/-- The piece before the last one, if there is anything in it. -/
theorem versionOf?_of_pieces {url : String} {pieces : List String}
    (h : Text.splitText '/' url = pieces ++ [version, last]) :
    versionOf? url = if version = "" then none else some version := by
  rw [versionOf?, h, List.reverse_append]
  rfl

theorem prepare_of_version {url : String} (maxAge : Nat) (h : versionOf? url = some version) :
    prepare maxAge url = prepareVersion maxAge url version := by
  rw [prepare, h]

theorem prepare_of_none {url : String} (maxAge : Nat) (h : versionOf? url = none) :
    prepare maxAge url = .fail (.schemaUrl url) := by
  rw [prepare, h]

theorem versionOf?_of_segments (h : a.segments = init ++ [version, last]) :
    versionOf? a.text = some version := by
  have hpieces : Text.splitText '/' a.text =
      (a.scheme ++ ":") :: "" :: a.authority :: init ++ [version, last] := by
    rw [splitText_text, h]
    rfl
  have hversion : version ≠ "" := a.segments_ne_empty version (by simp [h])
  rw [versionOf?_of_pieces hpieces, if_neg hversion]

theorem versionOf?_of_segment (h : a.segments = [last]) : versionOf? a.text = some a.authority := by
  have hpieces : Text.splitText '/' a.text = [a.scheme ++ ":", ""] ++ [a.authority, last] := by
    rw [splitText_text, h]
    rfl
  rw [versionOf?_of_pieces hpieces, if_neg a.authority_ne_empty]

theorem versionOf?_of_nil (h : a.segments = []) : versionOf? a.text = none := by
  have hpieces : Text.splitText '/' a.text = [a.scheme ++ ":"] ++ ["", a.authority] := by
    rw [splitText_text, h]
    rfl
  rw [versionOf?_of_pieces hpieces, if_pos rfl]

/-- **The version is the segment before the last** where there are two segments or more, and an
address without any is refused.  A single segment makes the authority the version. -/
theorem version_is_second_to_last (a : Address) (maxAge : Nat) :
    (∀ init version last, a.segments = init ++ [version, last] →
      versionOf? a.text = some version ∧
        prepare maxAge a.text = prepareVersion maxAge a.text version) ∧
    (a.segments = [] →
      versionOf? a.text = none ∧ prepare maxAge a.text = .fail (.schemaUrl a.text)) ∧
    ∀ last, a.segments = [last] →
      versionOf? a.text = some a.authority ∧
        prepare maxAge a.text = prepareVersion maxAge a.text a.authority := by
  refine ⟨fun init version last h => ?_, fun h => ?_, fun last h => ?_⟩
  · have hversion := versionOf?_of_segments h
    exact ⟨hversion, prepare_of_version maxAge hversion⟩
  · have hnone := versionOf?_of_nil h
    exact ⟨hnone, prepare_of_none maxAge hnone⟩
  · have hversion := versionOf?_of_segment h
    exact ⟨hversion, prepare_of_version maxAge hversion⟩

/-- The site of the schemas with a path of its own. -/
def hosted (segments : List String)
    (no_slash : ∀ segment ∈ segments, '/' ∉ segment.toList)
    (ne_empty : ∀ segment ∈ segments, segment ≠ "") : Address where
  scheme := "https"
  authority := "bitcartcc.com"
  segments := segments
  no_slash := by simpa using no_slash
  authority_ne_empty := by decide
  segments_ne_empty := ne_empty

/-- A versioned address, beside the site alone. -/
theorem version_is_second_to_last_hosted :
    (versionOf? "https://bitcartcc.com/schemas/plugin/1.1.0/plugin.schema.json" = some "1.1.0" ∧
      ∀ maxAge,
        prepare maxAge "https://bitcartcc.com/schemas/plugin/1.1.0/plugin.schema.json" =
          prepareVersion maxAge "https://bitcartcc.com/schemas/plugin/1.1.0/plugin.schema.json"
            "1.1.0") ∧
      versionOf? "https://bitcartcc.com" = none := by
  let versioned := hosted ["schemas", "plugin", "1.1.0", "plugin.schema.json"] (by decide)
    (by decide)
  have h := fun maxAge => (version_is_second_to_last versioned maxAge).1 ["schemas", "plugin"]
    "1.1.0" "plugin.schema.json" rfl
  exact ⟨⟨(h 0).1, fun maxAge => (h maxAge).2⟩,
    ((version_is_second_to_last (hosted [] (by decide) (by decide)) 0).2.1 rfl).1⟩

/-- An address with one segment. -/
def lone : Address := hosted ["plugin.schema.json"] (by decide) (by decide)

/-- With one segment there is no segment before the last, and the address is not refused: the host
is taken for the version. -/
theorem authority_is_version :
    lone.text = "https://bitcartcc.com/plugin.schema.json" ∧ lone.segments.length < 2 ∧
      versionOf? lone.text = some "bitcartcc.com" ∧
        ∀ maxAge, prepare maxAge lone.text ≠ .fail (.schemaUrl lone.text) := by
  have hversion : versionOf? lone.text = some "bitcartcc.com" := versionOf?_of_segment rfl
  refine ⟨by decide +kernel, by decide, hversion, fun maxAge h => ?_⟩
  rw [prepare_of_version maxAge hversion, prepareVersion] at h
  cases h

end Address

end PluginManager.Cache
