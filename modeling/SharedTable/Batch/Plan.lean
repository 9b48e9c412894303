import SharedTable.Item

/-!
Planning batches: repeated keys are removed before the work is cut into chunks, so no two chunks
touch the same item.
-/

set_option autoImplicit false

namespace SharedTable.Batch

def distinctKeys (keys : List PrimaryKey) : List PrimaryKey := keys.eraseDups

-- Takes the place of the entry with the same key, or the last place.
def record (done : List (PrimaryKey × Item)) (entry : PrimaryKey × Item) :
    List (PrimaryKey × Item) :=
  if done.any fun held => held.1 == entry.1 then
    done.map fun held => if held.1 == entry.1 then entry else held
  else done ++ [entry]

/-- One item for every key: the last one given, at the place of the first. -/
def latestItems (entries : List (PrimaryKey × Item)) : List Item :=
  (entries.foldl record []).map Prod.snd

-- Cuts a list into pieces of a size, at least one, the last piece perhaps shorter.
def chunks {α : Type} (size : Nat) : List α → List (List α)
  | [] => []
  | first :: rest => (first :: rest.take (size - 1)) :: chunks size (rest.drop (size - 1))
  termination_by entries => entries.length
  decreasing_by simp only [List.length_drop, List.length_cons]; omega

def chunkCount (size entries : Nat) : Nat := (entries + size - 1) / size

end SharedTable.Batch
