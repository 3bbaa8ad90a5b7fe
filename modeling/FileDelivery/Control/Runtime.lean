import FileDelivery.Control.Text

namespace FileDelivery.Control

/-- One entry of a zip archive. -/
structure ZipInfo where
  filename : Text
  data : Bytes
  deriving DecidableEq, Repr

abbrev Archive := List ZipInfo

def ZipInfo.file_size (info : ZipInfo) : Nat := info.data.length

/-- The parts of the Python runtime whose tables and formats are too large to repeat. -/
structure Python where
  /-- `str.lower()`. -/
  lower : Text → Text
  /-- `repr` of a string. -/
  repr : Text → String
  /-- `bytes.decode("gbk")`; `none` raises. -/
  decodeGbk : Bytes → Option Text
  /-- Matches `\d`. -/
  isDecimal : Char → Bool
  /-- `difflib.SequenceMatcher(None, a, b).ratio() * 100`. -/
  ratio : Text → Text → Rat
  /-- A replacement field other than a bare argument name, with the three arguments of
  `_render_path`; `none` raises. -/
  formatField : Text → Text → Text → Text → Option Text
  /-- Length of the archive that `zipfile` writes for these entries. -/
  zipSize : Archive → Nat
  /-- The entries of a file that `zipfile` can open. -/
  readZip : Bytes → Option Archive
  /-- `hashlib.sha256(...).hexdigest()` of the archive of these entries. -/
  zipSha256 : Archive → String

end FileDelivery.Control
