import JsonShape.Proofs.Json.Writing
import JsonShape.Proofs.Shape.Keyed
import JsonShape.Proofs.Shape.Node
import JsonShape.Proofs.Text.Utf8
import JsonShape.Shape.File
/-!
# JsonShape.Proofs.Shape.File

Shape files, read back.

* `Shape.textual_toNode`: nodes have only strings, arrays and objects.
* `Shape.decode_fileText`: the bytes of a shape's file are those of its text.
* `Shape.ofFileContent_fileText`: the file of a shape denotes that shape, in the same order at every
  depth, if its keys are written as literals that are read back.
-/

namespace JsonShape.Shape

theorem unpaired_name (k : Scalar) : k.name.unpaired = true := by
  cases k <;> decide

/-- The node of a kind with parts. -/
theorem textual_kind {kind : Text} {body : Json.Value} (hkind : kind.unpaired = true)
    (hbody : body.Textual) : (Json.Value.object [(kind, body)]).Textual :=
  .object (List.nodup_cons.2 ⟨List.not_mem_nil, List.nodup_nil⟩)
    (fun f hf => by rw [List.mem_singleton.1 hf]; exact hkind)
    (fun f hf => by rw [List.mem_singleton.1 hf]; exact hbody)

theorem textual_toNode {s : Shape} (hs : s.WellFormed)
    (hkeys : s.Keyed fun key => key.unpaired = true) : s.toNode.Textual := by
  induction s with
  | unknown => exact .string (by decide)
  | scalar k => exact .string (unpaired_name k)
  | optional s ih =>
    exact textual_kind (by decide) (ih (wellFormed_optional_iff.1 hs) (keyed_optional_iff.1 hkeys))
  | array s ih =>
    exact textual_kind (by decide) (ih (wellFormed_array_iff.1 hs) (keyed_array_iff.1 hkeys))
  | object fs ih =>
    obtain ⟨hd, hfs⟩ := wellFormed_object_iff.1 hs
    have hkeys := keyed_object_iff.1 hkeys
    rw [toNode, toFieldNodes_eq_map]
    refine textual_kind (by decide) (.object ?_ ?_ ?_)
    · rw [Entries.Distinct, Entries.keys_mapValues fun _ => toNode]
      exact hd
    · intro f hf
      obtain ⟨g, hg, rfl⟩ := List.mem_map.1 hf
      exact (hkeys g hg).1
    · intro f hf
      obtain ⟨g, hg, rfl⟩ := List.mem_map.1 hf
      exact ih g hg (hfs g hg) (hkeys g hg).2
  | union ms ih =>
    obtain ⟨-, -, hms⟩ := wellFormed_union_iff.1 hs
    rw [toNode, toMemberNodes_eq_map]
    refine textual_kind (by decide) (.array fun v hv => ?_)
    obtain ⟨m, hm, rfl⟩ := List.mem_map.1 hv
    exact ih m hm (hms m hm) (keyed_union_iff.1 hkeys m hm)

/-- The bytes of a shape's file are read as its text, in which no line ends otherwise than in a line
feed. -/
theorem decode_fileText {s : Shape} (hs : s.WellFormed) (hkeys : s.Keyed fun key => key.unpaired = true) :
    Utf8.decode (Utf8.encode s.fileText) = .ok s.fileText ∧
      Text.unifyNewlines s.fileText = s.fileText := by
  have hlayout : ∀ c ∈ s.fileText, Json.isLayout c = true :=
    fun c hc => (textual_toNode hs hkeys).isLayout_of_mem hc
  refine ⟨Utf8.decode_encode fun c hc => Json.isScalar_of_isLayout (hlayout c hc),
    Text.unifyNewlines_of_not_mem fun h => ?_⟩
  cases hlayout _ h

theorem ofFileContent_fileText {s : Shape} (hs : s.WellFormed)
    (hkeys : s.Keyed fun key => key.unpaired = true) :
    ofFileContent (Utf8.encode s.fileText) = .ok s := by
  obtain ⟨hdecode, hunified⟩ := decode_fileText hs hkeys
  rw [ofFileContent, hdecode]
  dsimp only
  rw [hunified, ofText, fileText, Json.read_indented (textual_toNode hs hkeys)]
  dsimp only
  rw [ofNode?_toNode hs]

theorem load_of_read {tree : Storage.Tree} {path : Text} {s : Shape} (hs : s.WellFormed)
    (hkeys : s.Keyed fun key => key.unpaired = true)
    (hread : tree.read path = .ok (Utf8.encode s.fileText)) : load tree path = .ok s := by
  rw [load, hread]
  exact ofFileContent_fileText hs hkeys

end JsonShape.Shape
