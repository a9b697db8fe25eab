import WireSchema.Layout.Basic

/-! # The order of structs

In C++ a struct must be complete where another one holds it. So the models that a model holds come
before it; apart from that the order of the schema is kept. -/

namespace WireSchema

namespace StructOrder

/-- Puts the model of the given name behind the models that stand in `order`, and the models that it
holds before it. Only the models `ms` are used, which leaves out those that are on their way. -/
def place (ms : List Model) (order : List Model) (name : String) : List Model :=
  if order.any (·.name == name) then order
  else
    match _h : ms.find? (·.name == name) with
    | none => order
    | some m =>
      let held := m.fields.filterMap fun f => f.type.modelName?
      held.foldl (place (Layout.without ms name)) order ++ [m]
termination_by ms.length
decreasing_by exact Layout.length_without_find?_lt _h

end StructOrder

/-- The models of a schema, each behind those that it holds. -/
def Schema.structOrder (s : Schema) : List Model :=
  (s.models.map (·.name)).foldl (StructOrder.place s.models) []

end WireSchema
