import Mathlib.Data.List.Infix
import Mathlib.Data.List.Induction

/-!
The secret scrubber of the proxy (`scrub.rs`, `scrub_patterns.rs`). The regex
crate is a parameter: what `replace_all` makes of a text, and how many matches
`captures_iter` finds in it.
-/
namespace CleanCtx
namespace Proxy

structure Regex where
  pattern : String
  deriving DecidableEq, Repr

/-- The operations of the regex crate the scrubber calls. A text without a match is returned as it
is. -/
structure RegexEngine where
  /-- The text after every match of the expression was replaced by the template. -/
  replaceAll : Regex → String → String → String
  /-- The number of matches in a text. -/
  captureCount : Regex → String → Nat
  replaceAll_of_no_match : ∀ re text replacement, captureCount re text = 0 →
    replaceAll re text replacement = text

inductive SecretType where
  | pemPrivateKey
  | token
  | authorizationHeader
  | secretFlagValue
  | urlUserInfo
  | secretAssignment
  | databaseUrl
  | custom (name : String)
  deriving DecidableEq, Repr

structure ScrubRule where
  secretType : SecretType
  re : Regex
  replacement : String
  deriving DecidableEq, Repr

structure ScrubHit where
  secretType : SecretType
  line : Nat
  replacement : String
  deriving DecidableEq, Repr

structure ScrubResult where
  content : String
  hits : List ScrubHit
  deriving DecidableEq, Repr

def pemPrivateKeyRe : Regex :=
  ⟨"(?s)-----BEGIN [A-Z ]*PRIVATE KEY-----.*?-----END [A-Z ]*PRIVATE KEY-----"⟩

def tokensRe : Regex :=
  ⟨"eyJ[A-Za-z0-9_-]+\\.eyJ[A-Za-z0-9_-]+\\.[A-Za-z0-9_-]+" ++
    "|\\b(?:AKIA|ASIA)[0-9A-Z]\x7b16\x7d\\b" ++
    "|\\bAIza[0-9A-Za-z_\\-]\x7b35\x7d\\b" ++
    "|\\b(?:ghp|gho|ghu|ghs|ghr)_[A-Za-z0-9]\x7b36,\x7d\\b" ++
    "|\\bgithub_pat_[A-Za-z0-9_]\x7b22,\x7d\\b" ++
    "|\\bxox[baprs]-[A-Za-z0-9-]\x7b10,\x7d\\b" ++
    "|\\b(?:sk|rk)_(?:live|test)_[A-Za-z0-9]\x7b16,\x7d\\b" ++
    "|\\bsk-(?:ant-)?[A-Za-z0-9_\\-]\x7b20,\x7d\\b" ++
    "|\\bhv[sbr]\\.[A-Za-z0-9_-]\x7b20,\x7d\\b" ++
    "|\\bpypi-[A-Za-z0-9_-]\x7b16,\x7d\\b"⟩

def authorizationHeaderRe : Regex :=
  ⟨"(?i)(authorization\\s*[:=]\\s*[A-Za-z][A-Za-z0-9._-]*\\s+)\\S+"⟩

def secretFlagValueRe : Regex :=
  ⟨"(?i)(--(?:password|passwd|pwd|secret|token|auth[_-]?token|access[_-]?token|api[_-]?key|" ++
    "access[_-]?key|secret[_-]?key|private[_-]?key|client[_-]?secret|credential|credentials)\\s+)" ++
    "('[^']*'|\"(?:[^\"\\\\]|\\\\.)*\"|[^\\s]+)"⟩

def urlUserinfoRe : Regex :=
  ⟨"([a-zA-Z][a-zA-Z0-9+.\\-]*://[^\\s:/@]+:)[^\\s@/]+(@)"⟩

def secretAssignmentRe : Regex :=
  ⟨"(?i)((?:password|passwd|pwd|secret|token|api[_-]?key|access[_-]?key|secret[_-]?key|" ++
    "private[_-]?key|auth[_-]?token|client[_-]?secret)\\s*[:=]\\s*)" ++
    "('[^']*'|\"(?:[^\"\\\\]|\\\\.)*\"|[^\\s]+)"⟩

def databaseUrlRe : Regex := ⟨"(?i)(postgres|mysql|mongodb)://([^@\\s]+)@"⟩

def redacted : String := "[REDACTED]"

/-- All scrub rules, applied in order. -/
def scrubRules : List ScrubRule :=
  [{ secretType := .pemPrivateKey, re := pemPrivateKeyRe, replacement := redacted },
    { secretType := .token, re := tokensRe, replacement := redacted },
    { secretType := .authorizationHeader, re := authorizationHeaderRe
      replacement := "$\x7b1\x7d[REDACTED]" },
    { secretType := .secretFlagValue, re := secretFlagValueRe
      replacement := "$\x7b1\x7d[REDACTED]" },
    { secretType := .urlUserInfo, re := urlUserinfoRe
      replacement := "$\x7b1\x7d[REDACTED]$\x7b2\x7d" },
    { secretType := .secretAssignment, re := secretAssignmentRe
      replacement := "$\x7b1\x7d[REDACTED]" },
    { secretType := .databaseUrl, re := databaseUrlRe
      replacement := "[REDACTED:db_credentials]@" }]

def literalAnchors : List String :=
  ["eyJ", "AKIA", "ASIA", "AIza", "ghp_", "gho_", "ghu_", "ghs_", "ghr_", "github_pat_", "xox",
    "sk_", "rk_", "sk-", "-----BEGIN", "://", "hvs.", "hvb.", "hvr.", "pypi-"]

def keywordRoots : List String :=
  ["password", "passwd", "secret", "token", "api_key", "access_key", "private_key", "auth_token",
    "client_secret", "credential", "bearer"]

def occursIn (sub s : String) : Bool := decide (sub.toList <:+: s.toList)

/-- The pre-filter: does some marker of a rule occur in the text. -/
def mightContainSecret (s : String) : Bool :=
  literalAnchors.any (occursIn · s) || keywordRoots.any (occursIn · (s.map Char.toLower))

namespace RegexEngine

variable (engine : RegexEngine)

/-- The body of the rule loop. A replacement counts only when it changes the length in bytes. -/
def applyRule (state : ScrubResult) (rule : ScrubRule) : ScrubResult :=
  let newResult := engine.replaceAll rule.re state.content rule.replacement
  if newResult.utf8ByteSize ≠ state.content.utf8ByteSize then
    { content := newResult
      hits := state.hits ++ List.replicate (engine.captureCount rule.re state.content)
        { secretType := rule.secretType, line := 0, replacement := rule.replacement } }
  else state

/-- `scrub_secrets` over a rule set. -/
def scrubWith (rules : List ScrubRule) (content : String) : ScrubResult :=
  if content.isEmpty || !mightContainSecret content then { content, hits := [] }
  else rules.foldl engine.applyRule { content, hits := [] }

def scrubSecrets (content : String) : ScrubResult := engine.scrubWith scrubRules content

end RegexEngine

end Proxy
end CleanCtx
