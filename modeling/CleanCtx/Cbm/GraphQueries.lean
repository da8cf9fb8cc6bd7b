import CleanCtx.Cbm.Client
import CleanCtx.Library.Quoting

/-!
The queries that are built from a name (`cbm/bridge/query.rs`, `cbm/project_search.rs`).
Each puts the name between quotes, escaped in a way of its own. A name is data when it
stands in the query as one literal and the text around the literal does not depend on it.
-/
namespace CleanCtx
namespace Cbm

open Quoting

def blastRadiusHead : Text :=
  "MATCH (caller:Function)-[:CALLS]->(f:Function) WHERE f.name = ".toList

def blastRadiusTail : Text := " RETURN caller.name, caller.file_path".toList

/-- The query of `get_blast_radius`. -/
def blastRadiusQuery (symbol : Text) : Text :=
  let escaped := replaceEach '\'' ['\\', '\''] symbol
  blastRadiusHead ++ '\'' :: (escaped ++ '\'' :: blastRadiusTail)

def endpointHead : Text :=
  "MATCH (c:Class)-[:DEFINES_METHOD]->(m:Method) WHERE m.name = ".toList

def endpointTail : Text :=
  " AND m.file_path =~ '.*\\.cs$' RETURN m.name, c.name LIMIT 5".toList

/-- The query of `resolve_cross_language_endpoint`. -/
def crossLanguageEndpointQuery (methodName : Text) : Text :=
  let escaped := replaceEach '\'' ['\\', '\''] methodName
  endpointHead ++ '\'' :: (escaped ++ '\'' :: endpointTail)

def escapeCypherStringLiteral (value : Text) : Text :=
  replaceEach '\'' ['\\', '\''] (replaceEach '\\' ['\\', '\\'] value)

def inboundHead : Text := "MATCH (caller)-[r]->(target \x7bname: ".toList

def inboundTail : Text := "\x7d) RETURN caller.file_path, type(r)".toList

def inboundReferenceQuery (targetName : Text) : Text :=
  let escaped := escapeCypherStringLiteral targetName
  inboundHead ++ '\'' :: (escaped ++ '\'' :: inboundTail)

/-- The query is a fixed head, one literal that is read as the name, and a fixed tail. -/
structure HoldsAsData (head tail query name : Text) : Prop where
  opens : '\'' ∉ head
  literal : ∃ body, query = head ++ '\'' :: body ∧ readLiteral '\'' '\\' body = some (name, tail)

variable {head tail name : Text}

theorem holdsAsData_iff (hhead : '\'' ∉ head) {body : Text} :
    HoldsAsData head tail (head ++ '\'' :: body) name ↔
      readLiteral '\'' '\\' body = some (name, tail) := by
  constructor
  · rintro ⟨-, body', heq, hread⟩
    obtain rfl := (List.cons.inj (List.append_cancel_left heq)).2
    exact hread
  · exact fun hread => ⟨hhead, body, rfl, hread⟩

/-- Names with quotes alone escaped are data when they have no backslash. -/
theorem holdsAsData_escapeQuotes_iff (hhead : '\'' ∉ head) :
    HoldsAsData head tail
        (head ++ '\'' :: (replaceEach '\'' ['\\', '\''] name ++ '\'' :: tail)) name ↔
      '\\' ∉ name :=
  (holdsAsData_iff hhead).trans (readLiteral_escapeQuotes_iff (by decide) name tail)

theorem quote_not_mem_blastRadiusHead : '\'' ∉ blastRadiusHead := by decide +kernel

theorem quote_not_mem_endpointHead : '\'' ∉ endpointHead := by decide +kernel

theorem quote_not_mem_inboundHead : '\'' ∉ inboundHead := by decide +kernel

/-- Names are data in the inbound query; in the other two exactly those without a backslash. -/
theorem names_data_iff (name : Text) :
    (HoldsAsData blastRadiusHead blastRadiusTail (blastRadiusQuery name) name ↔ '\\' ∉ name) ∧
    (HoldsAsData endpointHead endpointTail (crossLanguageEndpointQuery name) name ↔
      '\\' ∉ name) ∧
    HoldsAsData inboundHead inboundTail (inboundReferenceQuery name) name := by
  refine ⟨holdsAsData_escapeQuotes_iff quote_not_mem_blastRadiusHead,
    holdsAsData_escapeQuotes_iff quote_not_mem_endpointHead, ?_⟩
  exact (holdsAsData_iff quote_not_mem_inboundHead).mpr
    (readLiteral_escapeBoth (by decide) name inboundTail)

/-- A backslash at the end of a name takes the closing quote with it. -/
theorem not_data_trailingBackslash :
    ¬ HoldsAsData blastRadiusHead blastRadiusTail (blastRadiusQuery "f\\".toList) "f\\".toList ∧
      ¬ HoldsAsData endpointHead endpointTail (crossLanguageEndpointQuery "f\\".toList)
        "f\\".toList := by
  have hslash : ¬ '\\' ∉ "f\\".toList := by decide
  exact ⟨mt (holdsAsData_escapeQuotes_iff quote_not_mem_blastRadiusHead).mp hslash,
    mt (holdsAsData_escapeQuotes_iff quote_not_mem_endpointHead).mp hslash⟩

end Cbm
end CleanCtx
