import OrdinalDB.Lib.JsonText
import OrdinalDB.Store.Payloads

/-!
# The payloads as JSON texts

`serde_json` on top of a grammar of JSON and a conversion of doubles. Python's `json`
reads and writes the same grammar with numbers of its own, so that what both do with a
payload is said over one `JsonModule`.
-/

namespace OrdinalDB.Store

open Json

variable {Text : Type}

/-- The grammar of the JSON texts: a text as a tree with literals, and the printing of trees. -/
structure JsonGrammar (Text : Type) where
  tree : Text → Option Raw
  print : Raw → Text
  tree_print : ∀ raw, tree (print raw) = some raw

/-- Texts that are the trees themselves. -/
def JsonGrammar.ofTrees : JsonGrammar Raw := ⟨some, id, fun _ => rfl⟩

/-- `serde_json` on top of a grammar and the conversion of doubles. -/
def JsonCodec.ofGrammar (grammar : JsonGrammar Text) (floats : FloatText) : JsonCodec Text where
  read text := ((grammar.tree text).bind floats.toValue).filter (·.depth ≤ maxReadDepth)
  write value := grammar.print (floats.ofValue value)
  read_write value _ := by
    rw [grammar.tree_print, Option.bind_some, floats.toValue_ofValue, Option.filter_some]
    simp only [decide_eq_true_eq]
  depth_read text value h := by
    have hdepth := (Option.filter_eq_some_iff.mp h).2
    exact of_decide_eq_true hdepth

/-- The grammar of the JSON texts with the conversion of doubles that Rust and Python share. -/
structure JsonModule (Text : Type) extends JsonGrammar Text where
  floats : FloatText

/-- `serde_json`. -/
def JsonModule.codec (json : JsonModule Text) : JsonCodec Text :=
  .ofGrammar json.toJsonGrammar json.floats

variable {grammar : JsonGrammar Text} {floats : FloatText}

/-- The document of a text that is read is a tree that is read as the same value. -/
theorem parseJsonObject_reads {text : Text} {value : Value}
    (h : parseJsonObject (.ofGrammar grammar floats) text = some value) :
    ∃ raw, grammar.tree text = some raw ∧ floats.Reads raw value := by
  obtain ⟨read, hread, hvalue⟩ := Option.bind_eq_some_iff.mp (parseJsonObject_eq_some.mp h).1
  obtain ⟨raw, hraw, hvalue'⟩ := Option.bind_eq_some_iff.mp (Option.filter_eq_some_iff.mp hread).1
  exact ⟨raw, hraw, Option.bind_eq_some_iff.mpr ⟨read, hvalue', hvalue⟩⟩

end OrdinalDB.Store
