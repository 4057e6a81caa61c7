/-!
# Errors

What an operation can fail with, in words, with a code and sometimes a hint.
-/

namespace AssetDecl

inductive Failure where
  /-- Reading failed, for a reason given by the system. -/
  | unreadable (reason : String)
  | alreadyBound (keyword : String)
  | notBound (keyword : String)
  | noCreator (declType : String)
  | badConfig (detail : String)
  | tooLarge (path : String) (size limit : Nat)
  | panickedWorker (task : String)
  deriving DecidableEq, Repr

namespace Failure

def message : Failure → String
  | unreadable reason => reason
  | alreadyBound k => "declaration type `" ++ k ++ "` is already registered"
  | notBound k => "declaration type `" ++ k ++ "` is not registered"
  | noCreator t => "no creator is registered for declaration type `" ++ t ++ "`"
  | badConfig detail => "failed to parse config file: " ++ detail
  | tooLarge path size limit =>
    "file too large: `" ++ path ++ "` is " ++ toString size ++ " bytes (limit: " ++
      toString limit ++ " bytes)"
  | panickedWorker task => "background scan `" ++ task ++ "` panicked"

def code : Failure → String
  | unreadable _ => "decl::io_error"
  | alreadyBound _ => "decl::already_registered"
  | notBound _ => "decl::not_registered"
  | noCreator _ => "decl::no_creator"
  | badConfig _ => "decl::config_parse"
  | tooLarge .. => "decl::file_too_large"
  | panickedWorker _ => "decl::worker_panicked"

/-- What to do about it. -/
def help : Failure → Option String
  | alreadyBound k => some ("unregister `" ++ k ++ "` first or pick a different type keyword")
  | noCreator _ => some "register a creator for this type with `register_decl_type`"
  | badConfig _ =>
    some "check that decl.toml is valid TOML with `roots`, `[types]` and `[[folders]]` entries"
  | tooLarge .. => some "increase `max_file_size` in decl.toml"
  | _ => none

end Failure

end AssetDecl
