import Gatehouse.Flow.Context
import Gatehouse.Json.Codec

/-! Contexts of flows as JSON. -/
namespace Gatehouse.Flow

open Json Json.Codec

/-- Contexts; attributes may be left out. -/
def Context.codec : Codec Context :=
  record default [
    field "transaction_id" .required string transactionId fun v c => { c with transactionId := v },
    field "version" .required word64 version fun v c => { c with version := v },
    field "data" .defaulted (table any) data fun v c => { c with data := v },
    field "created_at" .required instant createdAt fun v c => { c with createdAt := v },
    field "expire_at" .required instant expireAt fun v c => { c with expireAt := v }]

end Gatehouse.Flow
