import FeelingsOverflow.Firestore.Document

-- The JSON in which the rich text of a document is stored.
structure JsonCoding (δ : Type) where
  jsonEncode : δ → String
  jsonDecode : String → Option δ
  jsonDecode_jsonEncode : ∀ delta, jsonDecode (jsonEncode delta) = some delta

namespace JsonCoding

variable {δ : Type} (json : JsonCoding δ)

def getQuillControllerviaJSON (jsonData : String) : Option δ :=
  json.jsonDecode jsonData

@[simp]
theorem getQuillControllerviaJSON_jsonEncode (delta : δ) :
    json.getQuillControllerviaJSON (json.jsonEncode delta) = some delta :=
  json.jsonDecode_jsonEncode delta

theorem jsonEncode_inj {delta₁ delta₂ : δ} :
    json.jsonEncode delta₁ = json.jsonEncode delta₂ ↔ delta₁ = delta₂ := by
  constructor
  · intro h
    have hd := json.jsonDecode_jsonEncode delta₁
    rw [h, json.jsonDecode_jsonEncode] at hd
    exact (Option.some.inj hd).symm
  · exact congrArg _

-- As there are only countably many of them, all values can be coded.
noncomputable def ofCountable (δ : Type) [Countable δ] : JsonCoding δ :=
  let code := (nonempty_embedding_nat δ).some.trans (Infinite.natEmbedding String)
  { jsonEncode            := code
    jsonDecode            := Function.partialInv code
    jsonDecode_jsonEncode := Function.partialInv_left code.injective }

end JsonCoding
