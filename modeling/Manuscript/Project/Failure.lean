/-! What can go wrong when a project is compiled, as causes that may wrap one another, and the one place where they
are worded. -/

namespace Manuscript

inductive Failure where
  | unsupportedFormat
  | includeCycle
  /-- An operation on a file that is not there. -/
  | notFound (operation path : String)
  | notPermitted
  | notAnImage (name : String)
  | voidChildren (name : String)
  /-- Resolution or inclusion went deeper than the compiler is allowed to follow. -/
  | tooDeep
  | other (message : String)
  | including (path : String) (cause : Failure)
  | compiling (path : String) (cause : Failure)
  | readingLayout (cause : Failure)
  /-- The failures of several pages. -/
  | several (failures : List Failure)

namespace Failure

mutual

def message : Failure → String
  | unsupportedFormat => "unsupported file format"
  | includeCycle => "file includes itself"
  | notFound operation path => operation ++ " " ++ path ++ ": file does not exist"
  | notPermitted => "operation not permitted"
  | notAnImage name => name ++ " is not an svg image"
  | voidChildren name => "html: void element <" ++ name ++ "> has child nodes"
  | tooDeep => "document is nested too deeply"
  | other message => message
  | including path cause => "unable to include " ++ path ++ ": " ++ cause.message
  | compiling path cause => "unable to compile " ++ path ++ ": " ++ cause.message
  | readingLayout cause => "unable to read layout: " ++ cause.message
  | several failures => "\n".intercalate (messages failures)
termination_by structural failure => failure

def messages : List Failure → List String
  | [] => []
  | failure :: rest => failure.message :: messages rest
termination_by structural failures => failures

end

mutual

/-- The causes at the bottom of a failure. -/
def roots : Failure → List Failure
  | including _ cause => cause.roots
  | compiling _ cause => cause.roots
  | readingLayout cause => cause.roots
  | several failures => rootsOf failures
  | failure => [failure]
termination_by structural failure => failure

def rootsOf : List Failure → List Failure
  | [] => []
  | failure :: rest => failure.roots ++ rootsOf rest
termination_by structural failures => failures

end

mutual

/-- The targets of the inclusions that failed, the outermost first. -/
def includePaths : Failure → List String
  | including path cause => path :: cause.includePaths
  | compiling _ cause => cause.includePaths
  | readingLayout cause => cause.includePaths
  | several failures => includePathsOf failures
  | _ => []
termination_by structural failure => failure

def includePathsOf : List Failure → List String
  | [] => []
  | failure :: rest => failure.includePaths ++ includePathsOf rest
termination_by structural failures => failures

end

def isIncludeCycle : Failure → Bool
  | includeCycle => true
  | _ => false

def isUnsupportedFormat : Failure → Bool
  | unsupportedFormat => true
  | _ => false

def isNotFound : Failure → Bool
  | notFound _ _ => true
  | _ => false

end Failure
end Manuscript
