import CleanCtx.Sqlite.Purge

/-!
When a load of a file answers, and what, in a store whose columns the code wrote: the newest
row of the file decodes and replays, and the snapshot that is stored for the version it
replays to stands for the same source.
-/
namespace CleanCtx
namespace Sqlite
namespace SqliteStore

variable {store : SqliteStore} {filePath : String} {row : ContextRow}
  {tuples : List Tuple} {version : UInt64}

section Loading

end Loading

end SqliteStore
end Sqlite
end CleanCtx
