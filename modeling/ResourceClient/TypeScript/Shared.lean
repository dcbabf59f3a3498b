/-
The texts that do not depend on any endpoint: the types of the transport and of a resource, and the
functions that make a resource out of a URI template.
-/
import ResourceClient.Endpoint.Basic

namespace ResourceClient.TypeScript

/-- Lines with their ends. -/
def unlines (lines : List String) : String :=
  String.join (lines.map (· ++ "\n"))

/-- The transport's method for a verb. -/
def transportMethod (v : Verb) : String :=
  "    " ++ v.name ++ "(url: string, " ++ (if v.sendsBody then "data: any, " else "") ++
    "options?: any): TResult;"

/-- The interface of the transport. -/
def transportDeclaration : String :=
  unlines
    (["export interface TaffyHttpClientProvider<TResult> \x7b"] ++ Verb.all.map transportMethod ++ ["\x7d"])

/-- A resource's method for a verb. -/
def resourceMethod (v : Verb) : String :=
  "    " ++ v.proxyMethod ++ "(data?: any, options?: any): TResult;"

/-- The types of a bound resource and of what makes one. -/
def resourceTypes : String :=
  unlines
    (["export interface TaffyResource<TResult> \x7b"] ++ Verb.all.map resourceMethod ++
      ["    url: string;",
       "\x7d",
       "",
       "export type TaffyResourceFactory<TResult> = " ++
         "(...args: Array<string | number>) => TaffyResource<TResult>;"])

/-- What the created resource does for a verb: data goes into the body or into the query. -/
def createdMethod (v : Verb) : String :=
  "            " ++ v.proxyMethod ++ ": (data?: any, options?: any): TResult => transport." ++ v.name ++
    (if v.sendsBody then "(formattedUrl, data, options)" else "(formattedUrl + encodeQueryData(data), options)") ++
    ","

/-- The functions at the end of the client. -/
def sharedFunctions : String :=
  unlines
    (["function create<TResult>(",
      "    transport: Interfaces.TaffyHttpClientProvider<TResult>,",
      "    url: string",
      "): Interfaces.TaffyResourceFactory<TResult> \x7b",
      "    return (...args: Array<string | number>): Interfaces.TaffyResource<TResult> => \x7b",
      "        const formattedUrl = formatUrl(url, args);",
      "        return \x7b"] ++
     Verb.all.map createdMethod ++
     ["            url: formattedUrl,",
      "        \x7d;",
      "    \x7d;",
      "\x7d",
      "",
      "function formatUrl(template: string, args: Array<string | number>): string \x7b",
      "    const pending = args.slice();",
      "    return template.replace(/\\\x7b(\\w+)\\\x7d/g, (placeholder: string): string =>",
      "        pending.length > 0 ? String(pending.shift()) : placeholder",
      "    );",
      "\x7d",
      "",
      "function encodeQueryData(data?: \x7b [key: string]: unknown \x7d): string \x7b",
      "    const pairs: string[] = [];",
      "    if (data) \x7b",
      "        for (const key of Object.keys(data)) \x7b",
      "            pairs.push(encodeURIComponent(key) + '=' + encodeURIComponent(String(data[key])));",
      "        \x7d",
      "    \x7d",
      "    return pairs.length > 0 ? '?' + pairs.join('&') : '';",
      "\x7d"])

end ResourceClient.TypeScript
