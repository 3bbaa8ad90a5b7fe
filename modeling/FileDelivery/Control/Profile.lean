import FileDelivery.Control.Text

namespace FileDelivery.Control

/-- A dict with text keys: its entries in insertion order. -/
structure Dict (β : Type) where
  entries : List (Text × β)
  keys_distinct : (entries.map Prod.fst).Nodup

def Dict.empty : Dict β := ⟨[], by simp⟩

def Dict.get? (d : Dict β) (key : Text) : Option β := d.entries.lookup key

structure TargetConfig where
  key : Text
  aliases : List Text
  strip_number_prefix : Bool

structure DocumentTypeConfig where
  category : Text

structure MatchingConfig where
  enable_fuzzy_match : Bool
  fuzzy_threshold : Int
  description_fuzzy_threshold : Int

structure EntryFilterConfig where
  ignored_filenames : List Text
  ignored_prefixes : List Text

structure TargetExtractionConfig where
  strategy : String
  delimiters : List Text
  broadcast_target : Option Text

structure ProfileConfig where
  targets : List TargetConfig
  document_types : Dict DocumentTypeConfig
  suffix_priority : Dict Text
  description_mapping : Dict Text
  suffix_fallback : Dict Text
  entry_filters : EntryFilterConfig
  path_template : Text
  matching_config : MatchingConfig
  target_extraction : TargetExtractionConfig

/-- The profile that `_load_profile` builds from an empty JSON object. -/
def ProfileConfig.default : ProfileConfig where
  targets := []
  document_types := .empty
  suffix_priority := .empty
  description_mapping := .empty
  suffix_fallback := .empty
  entry_filters := ⟨[], []⟩
  path_template := "\x7bcategory\x7d/\x7bdocument_type\x7d/\x7bfilename\x7d"
  matching_config := ⟨true, 70, 70⟩
  target_extraction := ⟨"directory_or_filename", ["-", "—", "–"], none⟩

end FileDelivery.Control
