import SharedTable.Fault
import SharedTable.Value.TextMap

/-!
Cursors: opaque tokens that carry the last key of a page. A token is the value text of the key in
Base64 symbols that need no escaping.
-/

set_option autoImplicit false

namespace SharedTable

structure Cursor where
  token : String
  deriving DecidableEq, Repr

namespace Cursor

def encode (lastKey : LastKey) : Cursor :=
  let symbols := Base64.encode Base64.urlSafe (Text.bytes (TextMap.toValue lastKey).text)
  ⟨String.ofList (symbols.map fun symbol => Char.ofNat symbol.toNat)⟩

def decode (cursor : Cursor) : Except CursorFault LastKey :=
  match Base64.decode Base64.urlSafe (Text.bytes cursor.token) with
  | .error fault => throw (.symbols fault)
  | .ok bytes =>
    match TextMap.ofBytes bytes with
    | .error fault => throw (.text fault)
    | .ok lastKey => return lastKey

end Cursor

end SharedTable
