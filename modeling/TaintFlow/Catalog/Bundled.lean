import TaintFlow.Catalog.Basic

/-!
# The bundled catalog

The points that are checked when no other catalog is named.
-/

namespace TaintFlow.Catalog.Bundled

/-- Methods that return data controlled by the user or the environment. -/
def entryPoints : List Pattern :=
  [⟨"javax.servlet.ServletRequest", "getParameter", ["java.lang.String"]⟩,
   ⟨"javax.servlet.ServletRequest", "getParameterValues", ["java.lang.String"]⟩,
   ⟨"javax.servlet.ServletRequest", "getParameterMap", []⟩,
   ⟨"javax.servlet.ServletRequest", "getInputStream", []⟩,
   ⟨"javax.servlet.ServletRequest", "getReader", []⟩,
   ⟨"javax.servlet.http.HttpServletRequest", "getParameter", ["java.lang.String"]⟩,
   ⟨"javax.servlet.http.HttpServletRequest", "getParameterValues", ["java.lang.String"]⟩,
   ⟨"javax.servlet.http.HttpServletRequest", "getHeader", ["java.lang.String"]⟩,
   ⟨"javax.servlet.http.HttpServletRequest", "getQueryString", []⟩,
   ⟨"javax.servlet.http.HttpServletRequest", "getRequestURI", []⟩,
   ⟨"javax.servlet.http.HttpServletRequest", "getPathInfo", []⟩,
   ⟨"javax.servlet.http.HttpServletRequest", "getRemoteUser", []⟩,
   ⟨"javax.servlet.http.HttpServletRequest", "getCookies", []⟩,
   ⟨"jakarta.servlet.http.HttpServletRequest", "getParameter", ["java.lang.String"]⟩,
   ⟨"jakarta.servlet.http.HttpServletRequest", "getHeader", ["java.lang.String"]⟩,
   ⟨"jakarta.servlet.http.HttpServletRequest", "getQueryString", []⟩,
   ⟨"javax.servlet.http.Cookie", "getValue", []⟩,
   ⟨"javax.servlet.http.Cookie", "getName", []⟩,
   ⟨"java.lang.System", "getenv", ["java.lang.String"]⟩,
   ⟨"java.lang.System", "getProperty", ["java.lang.String"]⟩,
   ⟨"java.io.BufferedReader", "readLine", []⟩,
   ⟨"java.util.Scanner", "nextLine", []⟩,
   ⟨"java.util.Scanner", "next", []⟩]

/-- Conversions whose result cannot carry an injection payload. -/
def commonSanitizers : List Pattern :=
  [⟨"java.lang.Integer", "parseInt", ["java.lang.String"]⟩,
   ⟨"java.lang.Integer", "valueOf", ["java.lang.String"]⟩,
   ⟨"java.lang.Long", "parseLong", ["java.lang.String"]⟩,
   ⟨"java.lang.Double", "parseDouble", ["java.lang.String"]⟩,
   ⟨"java.lang.Boolean", "parseBoolean", ["java.lang.String"]⟩,
   ⟨"java.util.UUID", "fromString", ["java.lang.String"]⟩]

/-- Sanitizers that serve one family only. -/
def ownSanitizers : Vulnerability → List Pattern
  | .crossSiteScripting =>
    [⟨"org.owasp.esapi.Encoder", "encodeForHTML", ["java.lang.String"]⟩,
     ⟨"org.apache.commons.text.StringEscapeUtils", "escapeHtml4", ["java.lang.String"]⟩,
     ⟨"org.springframework.web.util.HtmlUtils", "htmlEscape", ["java.lang.String"]⟩]
  | .sqlInjection =>
    [⟨"org.owasp.esapi.Encoder", "encodeForSQL", ["Object", "java.lang.String"]⟩]
  | .logForging =>
    [⟨"org.owasp.esapi.Encoder", "encodeForHTML", ["java.lang.String"]⟩,
     ⟨"org.apache.commons.text.StringEscapeUtils", "escapeJava", ["java.lang.String"]⟩]
  | .pathTraversal =>
    [⟨"org.apache.commons.io.FilenameUtils", "getName", ["java.lang.String"]⟩]
  | _ => []

/-- The sinks of each family. -/
def exitPoints : Vulnerability → List ExitPoint
  -- Cookies created or updated from untrusted data
  | .cookiePoisoning =>
    [⟨⟨"javax.servlet.http.Cookie", "Cookie", ["java.lang.String", "java.lang.String"]⟩,
       [.literalOnly, .literalOnly]⟩,
     ⟨⟨"javax.servlet.http.Cookie", "setValue", ["java.lang.String"]⟩, [.literalOnly]⟩]
  -- Untrusted data written into an HTTP response body
  | .crossSiteScripting =>
    [⟨⟨"java.io.PrintWriter", "print", ["java.lang.String"]⟩, [.literalOnly]⟩,
     ⟨⟨"java.io.PrintWriter", "println", ["java.lang.String"]⟩, [.literalOnly]⟩,
     ⟨⟨"java.io.PrintWriter", "write", ["java.lang.String"]⟩, [.literalOnly]⟩,
     ⟨⟨"java.io.PrintWriter", "print", ["Object"]⟩, [.literalOnly]⟩,
     ⟨⟨"javax.servlet.jsp.JspWriter", "print", ["java.lang.String"]⟩, [.literalOnly]⟩,
     ⟨⟨"javax.servlet.jsp.JspWriter", "println", ["java.lang.String"]⟩, [.literalOnly]⟩]
  -- SQL statements built from untrusted data
  | .sqlInjection =>
    [⟨⟨"java.sql.Statement", "executeQuery", ["java.lang.String"]⟩, [.literalOnly]⟩,
     ⟨⟨"java.sql.Statement", "executeUpdate", ["java.lang.String"]⟩, [.literalOnly]⟩,
     ⟨⟨"java.sql.Statement", "execute", ["java.lang.String"]⟩, [.literalOnly]⟩,
     ⟨⟨"java.sql.Statement", "addBatch", ["java.lang.String"]⟩, [.literalOnly]⟩,
     ⟨⟨"java.sql.Connection", "prepareStatement", ["java.lang.String"]⟩, [.literalOnly]⟩,
     ⟨⟨"java.sql.Connection", "prepareCall", ["java.lang.String"]⟩, [.literalOnly]⟩,
     ⟨⟨"javax.persistence.EntityManager", "createQuery", ["java.lang.String"]⟩, [.literalOnly]⟩,
     ⟨⟨"javax.persistence.EntityManager", "createNativeQuery", ["java.lang.String"]⟩,
       [.literalOnly]⟩]
  -- Redirect or forward targets taken from untrusted data
  | .unvalidatedRedirecting =>
    [⟨⟨"javax.servlet.http.HttpServletResponse", "sendRedirect", ["java.lang.String"]⟩,
       [.literalOnly]⟩,
     ⟨⟨"javax.servlet.ServletRequest", "getRequestDispatcher", ["java.lang.String"]⟩,
       [.literalOnly]⟩]
  -- Operating system commands built from untrusted data
  | .commandInjection =>
    [⟨⟨"java.lang.Runtime", "exec", ["java.lang.String"]⟩, [.literalOnly]⟩,
     ⟨⟨"java.lang.Runtime", "exec", ["java.lang.String[]"]⟩, [.literalOnly]⟩,
     ⟨⟨"java.lang.Runtime", "exec", ["java.lang.String", "java.lang.String[]"]⟩,
       [.literalOnly, .ignored]⟩,
     ⟨⟨"java.lang.ProcessBuilder", "command", ["java.util.List"]⟩, [.literalOnly]⟩]
  -- Untrusted data written into HTTP response headers
  | .httpResponseSplitting =>
    [⟨⟨"javax.servlet.http.HttpServletResponse", "addHeader",
       ["java.lang.String", "java.lang.String"]⟩,
       [.literalOnly, .literalOnly]⟩,
     ⟨⟨"javax.servlet.http.HttpServletResponse", "setHeader",
       ["java.lang.String", "java.lang.String"]⟩,
       [.literalOnly, .literalOnly]⟩]
  -- Untrusted data written to application logs
  | .logForging =>
    [⟨⟨"java.util.logging.Logger", "info", ["java.lang.String"]⟩, [.literalOnly]⟩,
     ⟨⟨"java.util.logging.Logger", "warning", ["java.lang.String"]⟩, [.literalOnly]⟩,
     ⟨⟨"java.util.logging.Logger", "severe", ["java.lang.String"]⟩, [.literalOnly]⟩,
     ⟨⟨"java.util.logging.Logger", "log", ["java.util.logging.Level", "java.lang.String"]⟩,
       [.ignored, .literalOnly]⟩,
     ⟨⟨"org.slf4j.Logger", "info", ["java.lang.String"]⟩, [.literalOnly]⟩,
     ⟨⟨"org.slf4j.Logger", "warn", ["java.lang.String"]⟩, [.literalOnly]⟩,
     ⟨⟨"org.slf4j.Logger", "error", ["java.lang.String"]⟩, [.literalOnly]⟩,
     ⟨⟨"org.slf4j.Logger", "debug", ["java.lang.String"]⟩, [.literalOnly]⟩]
  -- File system paths built from untrusted data
  | .pathTraversal =>
    [⟨⟨"java.io.File", "File", ["java.lang.String"]⟩, [.literalOnly]⟩,
     ⟨⟨"java.io.File", "File", ["java.lang.String", "java.lang.String"]⟩, [.ignored, .literalOnly]⟩,
     ⟨⟨"java.io.FileInputStream", "FileInputStream", ["java.lang.String"]⟩, [.literalOnly]⟩,
     ⟨⟨"java.io.FileOutputStream", "FileOutputStream", ["java.lang.String"]⟩, [.literalOnly]⟩,
     ⟨⟨"java.io.FileReader", "FileReader", ["java.lang.String"]⟩, [.literalOnly]⟩,
     ⟨⟨"java.io.FileWriter", "FileWriter", ["java.lang.String"]⟩, [.literalOnly]⟩,
     ⟨⟨"java.nio.file.Paths", "get", ["java.lang.String"]⟩, [.literalOnly]⟩]
  -- Classes or methods selected by untrusted data
  | .reflectionInjection =>
    [⟨⟨"java.lang.Class", "forName", ["java.lang.String"]⟩, [.literalOnly]⟩,
     ⟨⟨"java.lang.ClassLoader", "loadClass", ["java.lang.String"]⟩, [.literalOnly]⟩,
     ⟨⟨"java.lang.Class", "getMethod", ["java.lang.String", "java.lang.Class[]"]⟩,
       [.literalOnly, .ignored]⟩]

/-- The bundled catalog of a family. -/
def catalog (v : Vulnerability) : Catalog where
  vulnerability := v
  entryPoints := entryPoints
  exitPoints := exitPoints v
  sanitizationPoints := commonSanitizers ++ ownSanitizers v

end TaintFlow.Catalog.Bundled
