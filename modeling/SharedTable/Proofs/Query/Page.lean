import SharedTable.Proofs.Query.Answers

set_option autoImplicit false

namespace SharedTable

namespace Request

def start? (request : Request) : Option Position :=
  request.startKey.bind fun key =>
    match key[request.condition.sortAttr]?, key[partitionAttr]?, key[sortAttr]? with
    | some sort, some partition, some own => some ⟨sort, partition, own⟩
    | _, _, _ => none

def beyond (request : Request) (placed : List (Position × Item)) : List (Position × Item) :=
  placed.filter fun entry => request.start?.all fun start => entry.1.isBeyond request.forward start

variable {request : Request} {store : Store}

end Request

namespace Query

variable {α : Type} {limits : BatchLimits} {query : Query Memory α} {world : World Memory}

end Query

end SharedTable
